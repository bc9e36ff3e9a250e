import Mathlib.Data.List.Infix

namespace Rayman2Recomp

/-- `part in text`. -/
def occurs (part : List Char) : List Char → Bool
  | [] => part.isPrefixOf []
  | c :: text => part.isPrefixOf (c :: text) || occurs part text

/-- `text.replace(part, other, 1)`, for a part that is not empty. -/
def replaceFirst (part other : List Char) : List Char → List Char
  | [] => []
  | c :: text =>
    if part.isPrefixOf (c :: text) then other ++ (c :: text).drop part.length
    else c :: replaceFirst part other text

/-- A text of the script, line by line. -/
def ofLines (lines : List String) : List Char :=
  (lines.map String.toList).flatten

def hookSymbol : List Char := "RT64_PortDebugMenuHook".toList

def callAnchor : List Char :=
  ofLines
    ["        // Check the debugger popup regardless of the active inspector mode.\n",
      "        bool debuggerSelected = debuggerInspector.checkPopup(workload);"]

def callReplacement : List Char :=
  ofLines
    ["        // Check the debugger popup regardless of the active inspector mode.\n",
      "        bool debuggerSelected = debuggerInspector.checkPopup(workload);\n",
      "\n",
      "        // The port's own debug menu, drawn into this frame's UI. Null unless the\n",
      "        // port sets it; see tools/patch_rt64_debug_menu.py.\n",
      "        if (RT64_PortDebugMenuHook != nullptr) \x7b\n",
      "            RT64_PortDebugMenuHook();\n",
      "        \x7d"]

def declAnchor : List Char := "namespace RT64 \x7b".toList

def declReplacement : List Char :=
  ofLines
    ["// Set by the port to draw its own window inside RT64's developer UI, with an\n",
      "// ImGui frame already open. See tools/patch_rt64_debug_menu.py.\n",
      "extern \"C\" void (*RT64_PortDebugMenuHook)() = nullptr;\n",
      "\n",
      "namespace RT64 \x7b"]

def f2Marker : List Char := "// rayman2: F2 is deliberately unbound".toList

def f2Note : List Char :=
  ofLines
    ["            // rayman2: F2 is deliberately unbound. The port turns\n",
      "            // developer mode on in every build so that F1 opens the debug\n",
      "            // menu, which arms these shortcuts for everyone; a session-wide\n",
      "            // ray tracing toggle with nothing on screen to explain it is not\n",
      "            // something to leave under a finger. F1, F3 and F4 stay.\n"]

/-- One entry of `F2_CASES`, for its key. -/
def f2Case (key : String) : List Char :=
  ofLines
    ["            case " ++ key ++ ":\n",
      "                processDeveloperShortcut(DeveloperShortcut::RayTracing);\n",
      "                return true;\n"]

def windowCase : List Char := f2Case "VK_F2"

def sdlCase : List Char := f2Case "SDL_SCANCODE_F2"

/-- The two files of the submodule, as far as they exist. -/
structure Rt64Sources where
  state : Option (List Char)
  application : Option (List Char)

section

-- The paths of the two files, which `sys.exit` names.
variable (stateFile applicationFile : String)

def patchHook (text : List Char) : Except String (List Char) :=
  if occurs hookSymbol text then .ok text
  else if !occurs callAnchor text || !occurs declAnchor text then
    .error ("anchor not found in " ++ stateFile ++
      "; upstream has changed and this patch needs revisiting")
  else
    let text := replaceFirst declAnchor declReplacement text
    .ok (replaceFirst callAnchor callReplacement text)

def missingCase (name : String) : String :=
  "the F2 case in " ++ name ++ " was not found in " ++ applicationFile ++
    "; upstream has changed and this patch needs revisiting"

def patchF2 (text : List Char) : Except String (List Char) :=
  if occurs f2Marker text then .ok text
  else if !occurs windowCase text then .error (missingCase applicationFile "windowMessageFilter")
  else if !occurs sdlCase text then .error (missingCase applicationFile "sdlEventFilter")
  else
    let text := replaceFirst windowCase f2Note text
    .ok (replaceFirst sdlCase [] text)

def missingTarget (target : String) : String :=
  "missing " ++ target ++ "\nRun: git submodule update --init --recursive"

/-- One run: the files it leaves and what it exits with, if it does. -/
def patchRt64 (sources : Rt64Sources) : Rt64Sources × Option String :=
  match sources.state, sources.application with
  | none, _ => (sources, some (missingTarget stateFile))
  | some _, none => (sources, some (missingTarget applicationFile))
  | some state, some application =>
    match patchHook stateFile state with
    | .error message => (sources, some message)
    | .ok state =>
      match patchF2 applicationFile application with
      | .error message => (⟨some state, some application⟩, some message)
      | .ok application => (⟨some state, some application⟩, none)

end

/-- Both guards find their mark. -/
def Rt64Sources.Patched (sources : Rt64Sources) : Prop :=
  ∃ state application, sources = ⟨some state, some application⟩ ∧
    hookSymbol <:+: state ∧ f2Marker <:+: application

theorem occurs_iff {part text : List Char} : occurs part text = true ↔ part <:+: text := by
  induction text with
  | nil => rw [occurs, List.isPrefixOf_iff_prefix, List.prefix_nil, List.infix_nil]
  | cons c text ih =>
    rw [occurs, Bool.or_eq_true, List.isPrefixOf_iff_prefix, ih, List.infix_cons_iff]

theorem replaceFirst_found {part other text : List Char} (found : part <:+: text)
    (some : part ≠ []) :
    ∃ before after, text = before ++ part ++ after ∧
      replaceFirst part other text = before ++ other ++ after := by
  induction text with
  | nil => exact absurd (List.infix_nil.mp found) some
  | cons c text ih =>
    rw [replaceFirst]
    by_cases here : part.isPrefixOf (c :: text) = true
    · obtain ⟨after, split⟩ := List.isPrefixOf_iff_prefix.mp here
      refine ⟨[], after, by rw [List.nil_append, split], ?_⟩
      rw [if_pos here, ← split, List.drop_left, List.nil_append]
    · have later : part <:+: text := by
        rcases List.infix_cons_iff.mp found with first | later
        · exact absurd (List.isPrefixOf_iff_prefix.mpr first) here
        · exact later
      obtain ⟨before, after, split, replaced⟩ := ih later
      refine ⟨c :: before, after, ?_, ?_⟩
      · rw [split]
        rfl
      · rw [if_neg here, replaced]
        rfl

theorem replaceFirst_missing {part other text : List Char} (missing : ¬ part <:+: text) :
    replaceFirst part other text = text := by
  induction text with
  | nil => rfl
  | cons c text ih =>
    rw [List.infix_cons_iff, not_or] at missing
    have here : ¬ part.isPrefixOf (c :: text) = true := by
      rw [List.isPrefixOf_iff_prefix]
      exact missing.1
    rw [replaceFirst, if_neg here, ih missing.2]

/-- A marker inside what is put in is there afterwards. -/
theorem replaceFirst_marks {part other text marker : List Char} (found : part <:+: text)
    (some : part ≠ []) (marks : marker <:+: other) :
    marker <:+: replaceFirst part other text := by
  obtain ⟨before, after, -, replaced⟩ := replaceFirst_found found some
  rw [replaced]
  exact marks.trans (List.infix_append before other after)

/-- No end of `part` can be the start of `other`, or the other way round. -/
def NoOverlap (part other : List Char) : Prop :=
  ∀ rest ∈ part.tails, rest ≠ [] → ¬ rest <+: other ∧ ¬ other <+: rest

theorem NoOverlap.whole {part other left right after rest : List Char} (apart : NoOverlap part other)
    (split : part = left ++ right) (same : right ++ rest = other ++ after) : right = [] := by
  by_contra some
  have ends : right ∈ part.tails := by
    rw [List.mem_tails, split]
    exact List.suffix_append left right
  have first : right <+: other ++ after := by
    rw [← same]
    exact List.prefix_append right rest
  have second : other <+: other ++ after := List.prefix_append other after
  rcases List.prefix_or_prefix_of_prefix first second with shorter | longer
  · exact (apart right ends some).1 shorter
  · exact (apart right ends some).2 longer

/-- What is cut out takes nothing of a marker with it that it cannot overlap. -/
theorem NoOverlap.survives {marker cut before after : List Char} (ends : NoOverlap marker cut)
    (starts : NoOverlap cut marker) (found : marker <:+: before ++ cut ++ after) :
    marker <:+: before ++ after := by
  obtain ⟨left, right, split⟩ := found
  rw [List.append_assoc, List.append_assoc, List.append_eq_append_iff] at split
  rcases split with ⟨middle, rfl, later⟩ | ⟨middle, rfl, later⟩
  · -- The marker starts before the cut.
    rw [List.append_eq_append_iff] at later
    rcases later with ⟨tail, rfl, -⟩ | ⟨tail, whole, rest⟩
    · exact ⟨left, tail ++ after, by simp only [List.append_assoc]⟩
    · obtain rfl := ends.whole whole rest.symm
      rw [List.append_nil] at whole
      exact ⟨left, after, by rw [whole]⟩
  · -- It starts in the cut or behind it.
    rw [List.append_eq_append_iff] at later
    rcases later with ⟨tail, rfl, rfl⟩ | ⟨tail, whole, rest⟩
    · exact ⟨before ++ tail, right, by simp only [List.append_assoc]⟩
    · obtain rfl := starts.whole whole rest.symm
      exact ⟨before, right, by rw [List.append_assoc, rest, List.nil_append]⟩

/-- The start of the other text decides. -/
theorem NoOverlap.extend {part first other : List Char} (apart : NoOverlap part first)
    (starts : first <+: other) : NoOverlap part other := by
  intro rest ends some
  obtain ⟨short, long⟩ := apart rest ends some
  constructor
  · intro inside
    rcases List.prefix_or_prefix_of_prefix inside starts with shorter | longer
    · exact short shorter
    · exact long longer
  · intro around
    exact long (starts.trans around)

theorem f2Marker_apart : NoOverlap f2Marker sdlCase := by
  have spaces : NoOverlap f2Marker [' ', ' '] := by
    unfold NoOverlap
    decide +kernel
  exact spaces.extend (by decide +kernel)

theorem sdlCase_apart : NoOverlap sdlCase f2Marker := by
  have slash : NoOverlap sdlCase ['/'] := by
    unfold NoOverlap
    decide +kernel
  exact slash.extend (by decide +kernel)

/-- A marker on one line is in the whole text. -/
theorem ofLines_marks {lines : List String} (line : String) {marker : List Char}
    (among : line ∈ lines) (marks : marker <:+: line.toList) : marker <:+: ofLines lines :=
  marks.trans (List.infix_of_mem_flatten (List.mem_map_of_mem among))

theorem f2Marker_noted : f2Marker <:+: f2Note :=
  ofLines_marks "            // rayman2: F2 is deliberately unbound. The port turns\n"
    List.mem_cons_self (occurs_iff.mp (by decide +kernel))

theorem declReplacement_hooked : hookSymbol <:+: declReplacement :=
  ofLines_marks "extern \"C\" void (*RT64_PortDebugMenuHook)() = nullptr;\n"
    (by simp) (occurs_iff.mp (by decide +kernel))

theorem callReplacement_hooked : hookSymbol <:+: callReplacement :=
  ofLines_marks "            RT64_PortDebugMenuHook();\n"
    (by simp) (occurs_iff.mp (by decide +kernel))

section

variable {stateFile applicationFile : String}

theorem patchHook_hooked {text : List Char} (hooked : hookSymbol <:+: text) :
    patchHook stateFile text = .ok text := by
  rw [patchHook, if_pos (occurs_iff.mpr hooked)]

theorem patchHook_marks {text patched : List Char}
    (done : patchHook stateFile text = .ok patched) : hookSymbol <:+: patched := by
  unfold patchHook at done
  split at done
  case isTrue hooked =>
    obtain rfl := Except.ok.inj done
    exact occurs_iff.mp hooked
  case isFalse =>
    split at done
    case isTrue => cases done
    case isFalse anchored =>
      rw [Bool.or_eq_true, not_or, Bool.not_eq_true, Bool.not_eq_false', Bool.not_eq_true,
        Bool.not_eq_false'] at anchored
      have declared : declAnchor <:+: text := occurs_iff.mp anchored.2
      obtain rfl := Except.ok.inj done
      have marked : hookSymbol <:+: replaceFirst declAnchor declReplacement text :=
        replaceFirst_marks declared (by decide +kernel) declReplacement_hooked
      -- The declaration went in first, and the call's anchor may be gone with it.
      by_cases called : callAnchor <:+: replaceFirst declAnchor declReplacement text
      · exact replaceFirst_marks called (by decide +kernel) callReplacement_hooked
      · rw [replaceFirst_missing called]
        exact marked

theorem patchF2_unbound {text : List Char} (unbound : f2Marker <:+: text) :
    patchF2 applicationFile text = .ok text := by
  rw [patchF2, if_pos (occurs_iff.mpr unbound)]

theorem patchF2_marks {text patched : List Char}
    (done : patchF2 applicationFile text = .ok patched) : f2Marker <:+: patched := by
  unfold patchF2 at done
  split at done
  case isTrue unbound =>
    obtain rfl := Except.ok.inj done
    exact occurs_iff.mp unbound
  case isFalse =>
    split at done
    case isTrue => cases done
    case isFalse window =>
      split at done
      case isTrue => cases done
      case isFalse sdl =>
        rw [Bool.not_eq_true, Bool.not_eq_false'] at window
        obtain rfl := Except.ok.inj done
        have noted : f2Marker <:+: replaceFirst windowCase f2Note text :=
          replaceFirst_marks (occurs_iff.mp window) (by decide +kernel) f2Marker_noted
        by_cases second : sdlCase <:+: replaceFirst windowCase f2Note text
        · obtain ⟨before, after, split, removed⟩ :=
            replaceFirst_found second (by decide +kernel)
          rw [split] at noted
          rw [removed, List.append_nil]
          exact f2Marker_apart.survives sdlCase_apart noted
        · rw [replaceFirst_missing second]
          exact noted

theorem patchRt64_patched {sources : Rt64Sources} (patched : sources.Patched) :
    patchRt64 stateFile applicationFile sources = (sources, none) := by
  obtain ⟨state, application, rfl, hooked, unbound⟩ := patched
  simp only [patchRt64, patchHook_hooked hooked, patchF2_unbound unbound]

/-- A run that stops would stop there again. -/
theorem patchRt64_cases (sources : Rt64Sources) :
    ((patchRt64 stateFile applicationFile sources).1.Patched ∧
      (patchRt64 stateFile applicationFile sources).2 = none) ∨
    ∃ left message, patchRt64 stateFile applicationFile sources = (left, some message) ∧
      patchRt64 stateFile applicationFile left = (left, some message) := by
  obtain ⟨state, application⟩ := sources
  cases state with
  | none => exact .inr ⟨_, _, rfl, rfl⟩
  | some state =>
    cases application with
    | none => exact .inr ⟨_, _, rfl, rfl⟩
    | some application =>
      cases hook : patchHook stateFile state with
      | error message =>
        refine .inr ⟨⟨some state, some application⟩, message, ?_, ?_⟩ <;>
          simp only [patchRt64, hook]
      | ok hooked =>
        have marked : hookSymbol <:+: hooked := patchHook_marks hook
        cases f2 : patchF2 applicationFile application with
        | error message =>
          -- The first file is already written and found patched the next time.
          refine .inr ⟨⟨some hooked, some application⟩, message, ?_, ?_⟩
          · simp only [patchRt64, hook, f2]
          · simp only [patchRt64, patchHook_hooked marked, f2]
        | ok unbound =>
          left
          simp only [patchRt64, hook, f2, and_true]
          exact ⟨hooked, unbound, rfl, marked, patchF2_marks f2⟩

end

/-- The script can be run again after any run: it leaves the files as that run did and exits as
it did, which is without a message just when both marks are in. -/
theorem patch_menu_idempotent (stateFile applicationFile : String) (sources : Rt64Sources) :
    patchRt64 stateFile applicationFile (patchRt64 stateFile applicationFile sources).1 =
        patchRt64 stateFile applicationFile sources ∧
      ((patchRt64 stateFile applicationFile sources).2 = none ↔
        (patchRt64 stateFile applicationFile sources).1.Patched) := by
  rcases @patchRt64_cases stateFile applicationFile sources with
    ⟨patched, clean⟩ | ⟨left, message, stopped, again⟩
  · refine ⟨?_, iff_of_true clean patched⟩
    rw [patchRt64_patched patched]
    exact Prod.ext rfl clean.symm
  · rw [stopped]
    refine ⟨again, iff_of_false (by simp only [reduceCtorEq, not_false_eq_true]) ?_⟩
    intro patched
    rw [patchRt64_patched patched] at again
    cases again

end Rayman2Recomp
