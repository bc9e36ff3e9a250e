import Rayman2Recomp.LinkSyms
import Rayman2Recomp.MissingFuncs

namespace Rayman2Recomp

def codeSections : List Chars := [".boot".toList, ".main".toList, ".aux".toList]

/-- `\s*\[\s*(\d+)\]\s+(\S+)`: the index and the name of a section. -/
def sectionOf (otherDigit : Char → Bool) (line : Chars) : Option (Chars × Chars) :=
  match line.dropWhile isPySpace with
  | '[' :: rest =>
    let isDigit := fun c : Char => c.isDigit || (128 ≤ c.toNat && otherDigit c)
    let rest := rest.dropWhile isPySpace
    let index := rest.takeWhile isDigit
    match rest.dropWhile isDigit with
    | ']' :: rest =>
      let name := (rest.dropWhile isPySpace).takeWhile fun c => !isPySpace c
      if index = [] ∨ rest.head?.any isPySpace = false ∨ name = [] then none
      else some (index, name)
    | _ => none
  | _ => none

/-- `idx[name] = index` -/
def setIndex (idx : Assignments) (name index : Chars) : Assignments :=
  if (idx.map Prod.fst).contains name then
    idx.map fun entry => if entry.1 = name then (name, index) else entry
  else idx ++ [(name, index)]

def sectionIndices (otherDigit : Char → Bool) (lines : List Chars) : Assignments :=
  lines.foldl (fun idx line =>
    match sectionOf otherDigit line with
    | some (index, name) => if codeSections.contains name then setIndex idx name index else idx
    | none => idx) []

/-- What is read of a line of the symbol table. -/
structure SymbolLine where
  value : Chars
  typ : Chars
  ndx : Chars
  name : Chars

def symbolOf (line : Chars) : Option SymbolLine :=
  match pySplit line with
  | num :: value :: _ :: typ :: _ :: _ :: ndx :: name :: _ =>
    if num.getLast? = some ':' then some ⟨value, typ, ndx, name⟩ else none
  | _ => none

/-- The symbol of a line that is not passed over. -/
def wantedSymbol (want : List Chars) (line : Chars) : Option SymbolLine :=
  (symbolOf line).filter fun symbol => want.contains symbol.ndx && symbol.typ != "SECTION".toList

inductive IgnoredError
  /-- None of the code sections is in the file. -/
  | noSections
  /-- `int(value, 16)` raised. -/
  | invalidLiteral (text : Chars)

/-- `ignored.setdefault(name, value)` -/
def setDefaultAddress (ignored : List (Chars × Int)) (name : Chars) (value : Int) :
    List (Chars × Int) :=
  if (ignored.map Prod.fst).contains name then ignored else ignored ++ [(name, value)]

section

-- `int(text, 16)`, where it does not raise.
variable (int16 : Chars → Option Int)

def ignoreLine (want : List Chars) (s : List (Chars × Int) × Nat) (line : Chars) :
    Except IgnoredError (List (Chars × Int) × Nat) :=
  match wantedSymbol want line with
  | none => .ok s
  | some symbol =>
    if isDataName symbol.name then
      match int16 symbol.value with
      | none => .error (.invalidLiteral symbol.value)
      | some value => .ok (setDefaultAddress s.1 symbol.name value, s.2)
    else if symbol.typ = "FUNC".toList then .ok (s.1, s.2 + 1)
    else .ok s

structure IgnoredRun where
  /-- The names of `ignored_syms.txt`, line after line, with their addresses. -/
  ignored : List (Chars × Int)
  /-- The number of function symbols it prints. -/
  code : Nat

/-- `gen_ignored_syms.py` over the lines readelf prints for the sections and the symbols. -/
def genIgnoredSyms (otherDigit : Char → Bool) (sections symbols : List Chars) :
    Except IgnoredError IgnoredRun :=
  let secs := sectionIndices otherDigit sections
  if secs = [] then .error .noSections
  else
    match symbols.foldlM (ignoreLine int16 (secs.map Prod.snd)) ([], 0) with
    | .error error => .error error
    | .ok s => .ok ⟨s.1.insertionSort fun a b => a.2 ≤ b.2, s.2⟩

end

/-- The first symbol of a name. -/
def firstOf (seen : List SymbolLine) (name : Chars) : Option SymbolLine :=
  seen.find? fun symbol => symbol.name = name

theorem firstOf_snoc_other {seen : List SymbolLine} {symbol : SymbolLine} {name : Chars}
    (other : symbol.name ≠ name) : firstOf (seen ++ [symbol]) name = firstOf seen name := by
  have alone : List.find? (fun s : SymbolLine => decide (s.name = name)) [symbol] = none := by
    rw [List.find?_cons_of_neg (by simpa using other), List.find?_nil]
  rw [firstOf, List.find?_append, alone, Option.or_none, firstOf]

theorem firstOf_snoc_seen {seen : List SymbolLine} {symbol first : SymbolLine} {name : Chars}
    (found : firstOf seen name = some first) :
    firstOf (seen ++ [symbol]) name = some first := by
  rw [firstOf] at found
  rw [firstOf, List.find?_append, found, Option.some_or]

theorem firstOf_snoc_new {seen : List SymbolLine} {symbol : SymbolLine}
    (fresh : firstOf seen symbol.name = none) :
    firstOf (seen ++ [symbol]) symbol.name = some symbol := by
  rw [firstOf] at fresh
  rw [firstOf, List.find?_append, fresh, Option.none_or, List.find?_cons_of_pos (by simp)]

/-- What the loop has gathered from the symbols so far. -/
structure Gathered (int16 : Chars → Option Int) (seen : List SymbolLine)
    (s : List (Chars × Int) × Nat) : Prop where
  once : (s.1.map Prod.fst).Nodup
  readable : ∀ symbol ∈ seen, isDataName symbol.name = true → (int16 symbol.value).isSome = true
  exact : ∀ name value, (name, value) ∈ s.1 ↔ isDataName name = true ∧
    ∃ first, firstOf seen name = some first ∧ int16 first.value = some value
  code : s.2 = seen.countP fun symbol =>
    !isDataName symbol.name && decide (symbol.typ = "FUNC".toList)

/-- How the loop ends over the symbols it has seen. -/
def Settled (int16 : Chars → Option Int) (seen : List SymbolLine) :
    Except IgnoredError (List (Chars × Int) × Nat) → Prop
  | .ok s => Gathered int16 seen s
  | .error .noSections => False
  | .error (.invalidLiteral text) => ∃ symbol ∈ seen,
      isDataName symbol.name = true ∧ symbol.value = text ∧ int16 text = none

section

variable {int16 : Chars → Option Int} {seen : List SymbolLine} {s : List (Chars × Int) × Nat}
  {symbol : SymbolLine}

theorem Settled.later {error : IgnoredError} {rest : List SymbolLine}
    (stopped : Settled int16 seen (.error error)) : Settled int16 (seen ++ rest) (.error error) := by
  cases error with
  | noSections => exact stopped
  | invalidLiteral text =>
    obtain ⟨symbol, inside, known⟩ := stopped
    exact ⟨symbol, List.mem_append_left rest inside, known⟩

theorem Gathered.mem_keys (ok : Gathered int16 seen s) {name : Chars} :
    name ∈ s.1.map Prod.fst ↔ isDataName name = true ∧ ∃ first, firstOf seen name = some first := by
  constructor
  · intro inside
    obtain ⟨⟨name, value⟩, entry, rfl⟩ := List.mem_map.mp inside
    obtain ⟨data, first, found, -⟩ := (ok.exact name value).mp entry
    exact ⟨data, first, found⟩
  · rintro ⟨data, first, found⟩
    have named : first.name = name := by
      have := List.find?_some found
      simpa using this
    have known : (int16 first.value).isSome = true :=
      ok.readable first (List.mem_of_find?_eq_some found) (by rw [named]; exact data)
    obtain ⟨value, read⟩ := Option.isSome_iff_exists.mp known
    exact List.mem_map.mpr ⟨(name, value), (ok.exact name value).mpr ⟨data, first, found, read⟩, rfl⟩

theorem Gathered.data (ok : Gathered int16 seen s) (data : isDataName symbol.name = true)
    {value : Int} (read : int16 symbol.value = some value) :
    Gathered int16 (seen ++ [symbol]) (setDefaultAddress s.1 symbol.name value, s.2) where
  once := by
    rw [setDefaultAddress]
    split
    case isTrue => exact ok.once
    case isFalse fresh =>
      rw [List.contains_iff_mem] at fresh
      rw [List.map_append, List.map_singleton]
      exact List.nodup_append.mpr ⟨ok.once, List.nodup_singleton _, by
        rintro name inside other alone rfl
        rw [List.mem_singleton] at alone
        rw [alone] at inside
        exact fresh inside⟩
  readable := by
    intro other inside named
    rcases List.mem_append.mp inside with earlier | last
    · exact ok.readable other earlier named
    · rw [List.mem_singleton.mp last, read]
      rfl
  exact := by
    intro name known
    rw [setDefaultAddress]
    by_cases same : symbol.name = name
    · subst same
      split
      case isTrue inside =>
        obtain ⟨-, first, found⟩ := ok.mem_keys.mp (List.contains_iff_mem.mp inside)
        rw [ok.exact, found, firstOf_snoc_seen found]
      case isFalse fresh =>
        rw [List.contains_iff_mem] at fresh
        have unseen : firstOf seen symbol.name = none := by
          rw [Option.eq_none_iff_forall_ne_some]
          intro first found
          exact fresh (ok.mem_keys.mpr ⟨data, first, found⟩)
        have absent : (symbol.name, known) ∉ s.1 := fun entry =>
          fresh (List.mem_map.mpr ⟨_, entry, rfl⟩)
        rw [List.mem_append, firstOf_snoc_new unseen]
        constructor
        · rintro (entry | last)
          · exact absurd entry absent
          · obtain rfl := (Prod.mk.inj (List.mem_singleton.mp last)).2
            exact ⟨data, symbol, rfl, read⟩
        · rintro ⟨-, first, last, found⟩
          rw [← Option.some.inj last, read] at found
          obtain rfl := Option.some.inj found
          exact .inr (List.mem_singleton.mpr rfl)
    · rw [firstOf_snoc_other same, ← ok.exact]
      split
      case isTrue => exact Iff.rfl
      case isFalse =>
        rw [List.mem_append, List.mem_singleton, Prod.mk.injEq]
        exact or_iff_left fun last => same last.1.symm
  code := by
    rw [List.countP_append, ok.code, List.countP_singleton]
    simp only [data, Bool.not_true, Bool.false_and, Bool.false_eq_true, if_false, Nat.add_zero]

theorem Gathered.other (ok : Gathered int16 seen s) (other : ¬ isDataName symbol.name = true) :
    Gathered int16 (seen ++ [symbol])
      (s.1, s.2 + if symbol.typ = "FUNC".toList then 1 else 0) where
  once := ok.once
  readable := by
    intro earlier inside named
    rcases List.mem_append.mp inside with before | last
    · exact ok.readable earlier before named
    · rw [List.mem_singleton.mp last] at named
      exact absurd named other
  exact := by
    intro name value
    rw [ok.exact]
    by_cases same : symbol.name = name
    · subst same
      exact iff_of_false (fun known => other known.1) fun known => other known.1
    · rw [firstOf_snoc_other same]
  code := by
    rw [List.countP_append, ok.code, List.countP_singleton]
    simp only [Bool.not_eq_true] at other
    simp only [other, Bool.not_false, Bool.true_and, decide_eq_true_eq]

theorem Gathered.ignoreLine {want : List Chars} (ok : Gathered int16 seen s) (line : Chars) :
    Settled int16 (seen ++ (wantedSymbol want line).toList) (ignoreLine int16 want s line) := by
  unfold Rayman2Recomp.ignoreLine
  cases wantedSymbol want line with
  | none =>
    rw [Option.toList_none, List.append_nil]
    exact ok
  | some symbol =>
    dsimp only [Option.toList_some]
    by_cases data : isDataName symbol.name = true
    · rw [if_pos data]
      cases read : int16 symbol.value with
      | none => exact ⟨symbol, List.mem_append_right seen List.mem_cons_self, data, rfl, read⟩
      | some value => exact ok.data data read
    · have next := ok.other data
      rw [if_neg data]
      by_cases func : symbol.typ = "FUNC".toList
      · rw [if_pos func] at next ⊢
        exact next
      · rw [if_neg func] at next ⊢
        exact next

/-- The whole symbol table, or the line at which it stops. -/
theorem Gathered.foldlM {want : List Chars} (lines : List Chars) (ok : Gathered int16 seen s) :
    Settled int16 (seen ++ lines.filterMap (wantedSymbol want))
      (lines.foldlM (Rayman2Recomp.ignoreLine int16 want) s) := by
  induction lines generalizing seen s with
  | nil =>
    rw [List.filterMap_nil, List.append_nil]
    exact ok
  | cons line rest ih =>
    have step := @ignoreLine int16 seen s want ok line
    have whole : seen ++ (line :: rest).filterMap (wantedSymbol want) =
        seen ++ (wantedSymbol want line).toList ++ rest.filterMap (wantedSymbol want) := by
      rw [List.append_assoc, List.filterMap_cons]
      cases wantedSymbol want line <;> rfl
    rw [List.foldlM_cons, whole]
    cases next : Rayman2Recomp.ignoreLine int16 want s line with
    | error error =>
      rw [next] at step
      exact step.later
    | ok t =>
      rw [next] at step
      exact ih step

end

theorem gathered_nil {int16 : Chars → Option Int} : Gathered int16 [] ([], 0) where
  once := List.nodup_nil
  readable := by
    intro symbol inside
    cases inside
  exact := by
    intro name value
    exact iff_of_false List.not_mem_nil fun known => by
      obtain ⟨-, first, found, -⟩ := known
      cases found
  code := rfl

/-- The symbols of the code sections, as far as they are read. -/
def wantedSymbols (otherDigit : Char → Bool) (sections symbols : List Chars) : List SymbolLine :=
  symbols.filterMap (wantedSymbol ((sectionIndices otherDigit sections).map Prod.snd))

/-- Every data symbol has an address, and what is written is one entry for each data name, at the
address of its first symbol and in the order of the addresses. -/
structure IgnoredRun.Exact (run : IgnoredRun) (int16 : Chars → Option Int)
    (wanted : List SymbolLine) : Prop where
  readable : ∀ symbol ∈ wanted, isDataName symbol.name = true →
    (int16 symbol.value).isSome = true
  once : (run.ignored.map Prod.fst).Nodup
  sorted : run.ignored.Pairwise fun a b => a.2 ≤ b.2
  exact : ∀ name value, (name, value) ∈ run.ignored ↔ isDataName name = true ∧
    ∃ first, firstOf wanted name = some first ∧ int16 first.value = some value
  code : run.code = wanted.countP fun symbol =>
    !isDataName symbol.name && decide (symbol.typ = "FUNC".toList)

/-- The data symbols of the code sections are ignored and nothing else, whatever readelf prints;
without a code section, or on a data symbol without an address, nothing is written. -/
theorem genIgnoredSyms_exact (int16 : Chars → Option Int) (otherDigit : Char → Bool)
    (sections symbols : List Chars) :
    match genIgnoredSyms int16 otherDigit sections symbols with
    | .error .noSections => sectionIndices otherDigit sections = []
    | .error (.invalidLiteral text) => sectionIndices otherDigit sections ≠ [] ∧
        ∃ symbol ∈ wantedSymbols otherDigit sections symbols,
          isDataName symbol.name = true ∧ symbol.value = text ∧ int16 text = none
    | .ok run => sectionIndices otherDigit sections ≠ [] ∧
        run.Exact int16 (wantedSymbols otherDigit sections symbols) := by
  unfold genIgnoredSyms
  by_cases missing : sectionIndices otherDigit sections = []
  · rw [if_pos missing]
    exact missing
  · have settled : Settled int16 (wantedSymbols otherDigit sections symbols)
        (symbols.foldlM (ignoreLine int16 ((sectionIndices otherDigit sections).map Prod.snd))
          ([], 0)) := gathered_nil.foldlM symbols
    rw [if_neg missing]
    cases result : symbols.foldlM
        (ignoreLine int16 ((sectionIndices otherDigit sections).map Prod.snd)) ([], 0) with
    | error error =>
      rw [result] at settled
      cases error with
      | noSections => exact absurd settled id
      | invalidLiteral text => exact ⟨missing, settled⟩
    | ok s =>
      rw [result] at settled
      have same : (s.1.insertionSort fun a b => a.2 ≤ b.2).Perm s.1 := List.perm_insertionSort _ s.1
      refine ⟨missing, settled.readable, ?_, List.pairwise_insertionSort _ s.1, ?_, settled.code⟩
      · exact (same.map Prod.fst).nodup_iff.mpr settled.once
      · intro name value
        rw [← settled.exact]
        exact same.mem_iff

end Rayman2Recomp
