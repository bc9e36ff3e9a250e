import Rayman2Recomp.SpinRows

namespace Rayman2Recomp

def isNonSpace (c : Char) : Bool := !isPySpace c

/-- `GLABEL` -/
def glabelName (line : Chars) : Option Chars :=
  let name := (line.drop 7).takeWhile isNonSpace
  if line.take 7 = "glabel ".toList ∧ name ≠ [] then some name else none

/-- `LABEL` -/
def localLabel (line : Chars) : Option Chars :=
  match line.dropWhile isPySpace with
  | '.' :: 'L' :: rest =>
    if rest.takeWhile isHex ≠ [] ∧ (rest.dropWhile isHex).head? = some ':' then
      some ('L' :: rest.takeWhile isHex)
    else none
  | _ => none

/-- `[0-9A-Fa-f]+\s+`, and what follows it. -/
def hexField (text : Chars) : Option (Chars × Chars) :=
  let rest := text.dropWhile isHex
  if text.takeWhile isHex ≠ [] ∧ rest.head?.any isPySpace then
    some (text.takeWhile isHex, rest.dropWhile isPySpace)
  else none

def hexDigitValue (c : Char) : Nat :=
  if c.isDigit then c.toNat - '0'.toNat
  else if 'a' ≤ c ∧ c ≤ 'f' then c.toNat - 'a'.toNat + 10
  else c.toNat - 'A'.toNat + 10

/-- `int(text, 16)` -/
def hexNumber (text : Chars) : Nat := text.foldl (fun n c => 16 * n + hexDigitValue c) 0

/-- The mnemonic and the operands behind `*/`. -/
def insnText (text : Chars) : Option (Chars × Chars) :=
  let body := text.dropWhile isPySpace
  if text.head?.any isPySpace ∧ body.takeWhile isNonSpace ≠ [] then
    some (body.takeWhile isNonSpace, (body.dropWhile isNonSpace).dropWhile isPySpace)
  else none

/-- `INSN` where the text starts. -/
def insnAt (text : Chars) : Option Insn :=
  match text with
  | '/' :: '*' :: rest =>
    if !rest.head?.any isPySpace then none
    else
      (hexField (rest.dropWhile isPySpace)).bind fun (_, rest) =>
        (hexField rest).bind fun (vram, rest) =>
          (hexField rest).bind fun (word, rest) =>
            if vram.length = 8 ∧ word.length = 8 ∧ rest.take 2 = ['*', '/'] then
              (insnText (rest.drop 2)).map fun (mnem, ops) => ⟨hexNumber vram, mnem, ops⟩
            else none
  | _ => none

/-- `INSN.search` -/
def insnOf : Chars → Option Insn
  | [] => none
  | c :: rest => (insnAt (c :: rest)).or (insnOf rest)

structure ParseState where
  out : List ListedFunc
  func : Option Chars
  body : List Insn
  labels : Chars → Option Nat

def ParseState.start : ParseState := ⟨[], none, [], fun _ => none⟩

/-- The functions so far, with the one being read. -/
def ParseState.close (s : ParseState) : List ListedFunc :=
  match s.func with
  | some func => s.out ++ [⟨⟨func, s.body⟩, s.labels⟩]
  | none => s.out

def parseLine (s : ParseState) (line : Chars) : ParseState :=
  match glabelName line with
  | some name => ⟨s.close, some name, [], fun _ => none⟩
  | none =>
    match localLabel line with
    | some name => { s with labels := Function.update s.labels name (some s.body.length) }
    | none =>
      match insnOf line with
      | some e => if s.func.isSome then { s with body := s.body ++ [e] } else s
      | none => s

/-- `parse` over the lines of a file. -/
def parse (lines : List Chars) : List ListedFunc := (lines.foldl parseLine ParseState.start).close

/-- A line of a disassembled function: a local label, an instruction with its offset and its word in
front of it, or anything else. -/
inductive AsmLine
  | label (indent : Nat) (digits : Chars)
  | insn (indent gap pad : Nat) (offset word : Chars) (e : Insn)
  | other (line : Chars)

structure AsmFunc where
  name : Chars
  lines : List AsmLine

def hexDigit (n : Nat) : Char := "0123456789ABCDEF".toList.getD (n % 16) '0'

/-- A number in so many digits. -/
def hexDigits : Nat → Nat → Chars
  | 0, _ => []
  | width + 1, n => hexDigits width (n / 16) ++ [hexDigit n]

def spaces (n : Nat) : Chars := List.replicate n ' '

def AsmLine.text : AsmLine → Chars
  | label indent digits => spaces indent ++ ".L".toList ++ digits ++ [':']
  | insn indent gap pad offset word e =>
    spaces indent ++ "/* ".toList ++ offset ++ ' ' :: hexDigits 8 e.vram ++ ' ' :: word ++
      " */".toList ++ ' ' :: spaces gap ++ e.mnem ++
      if e.ops = [] then [] else ' ' :: spaces pad ++ e.ops
  | other line => line

def AsmFunc.text (f : AsmFunc) : List Chars :=
  ("glabel ".toList ++ f.name) :: f.lines.map AsmLine.text

/-- What a disassembler writes: digits where they are due, names without white
space, and no other line that looks like one of these. -/
def AsmLine.WellFormed : AsmLine → Prop
  | label _ digits => digits ≠ [] ∧ digits.all isHex
  | insn _ _ _ offset word e =>
    offset ≠ [] ∧ offset.all isHex ∧ word.length = 8 ∧ word.all isHex ∧ e.vram < 16 ^ 8 ∧
      e.mnem ≠ [] ∧ e.mnem.all isNonSpace ∧ ¬e.ops.head?.any isPySpace
  | other line => glabelName line = none ∧ localLabel line = none ∧ insnOf line = none

instance : DecidablePred AsmLine.WellFormed
  | .label _ _ => inferInstanceAs (Decidable (_ ∧ _))
  | .insn _ _ _ _ _ _ => inferInstanceAs (Decidable (_ ∧ _ ∧ _ ∧ _ ∧ _ ∧ _ ∧ _ ∧ _))
  | .other _ => inferInstanceAs (Decidable (_ ∧ _ ∧ _))

def AsmFunc.WellFormed (f : AsmFunc) : Prop :=
  f.name ≠ [] ∧ f.name.all isNonSpace ∧ ∀ line ∈ f.lines, line.WellFormed

def AsmLine.insn? : AsmLine → Option Insn
  | insn _ _ _ _ _ e => some e
  | _ => none

def AsmLine.label? : AsmLine → Option Chars
  | label _ digits => some ('L' :: digits)
  | _ => none

def insnsOf (lines : List AsmLine) : List Insn := lines.filterMap AsmLine.insn?

/-- A label stands where its last line is: behind the instructions before it. -/
def labelPlace (lines : List AsmLine) (name : Chars) : Option Nat :=
  (((List.range lines.length).filter fun i => (lines[i]?).bind AsmLine.label? = some name).getLast?).map
    fun i => (insnsOf (lines.take i)).length

/-- The function a listing stands for. -/
def AsmFunc.listed (f : AsmFunc) : ListedFunc := ⟨⟨f.name, insnsOf f.lines⟩, labelPlace f.lines⟩

section

variable {p : Char → Bool} {run rest : Chars} {c : Char}

theorem takeWhile_run (inside : run.all p) (stops : ¬rest.head?.any p) :
    (run ++ rest).takeWhile p = run := by
  rw [List.takeWhile_append_of_pos (List.all_eq_true.mp inside)]
  cases rest with
  | nil => rw [List.takeWhile_nil, List.append_nil]
  | cons c rest => rw [List.takeWhile_cons_of_neg (by simpa using stops), List.append_nil]

theorem dropWhile_run (inside : run.all p) (stops : ¬rest.head?.any p) :
    (run ++ rest).dropWhile p = rest := by
  rw [List.dropWhile_append_of_pos (List.all_eq_true.mp inside)]
  cases rest with
  | nil => rfl
  | cons c rest => rw [List.dropWhile_cons_of_neg (by simpa using stops)]

theorem spaces_all (n : Nat) : (spaces n).all isPySpace := by
  unfold spaces
  rw [List.all_replicate]
  split <;> rfl

theorem isHex_bounds (h : isHex c) : 48 ≤ c.toNat ∧ c.toNat ≤ 102 := by
  unfold isHex Char.isDigit at h
  simp only [Bool.or_eq_true, Bool.and_eq_true, decide_eq_true_eq, Char.le_def, ge_iff_le,
    UInt32.le_iff_toNat_le] at h
  have value : c.val.toNat = c.toNat := rfl
  have letters : ('a'.val.toNat = 97 ∧ 'f'.val.toNat = 102) ∧ 'A'.val.toNat = 65 ∧
      'F'.val.toNat = 70 := ⟨⟨rfl, rfl⟩, rfl, rfl⟩
  have digits : '0'.val.toNat = 48 ∧ '9'.val.toNat = 57 := ⟨rfl, rfl⟩
  omega

theorem isHex_not_space (h : isHex c) : isPySpace c = false := by
  obtain ⟨low, high⟩ := isHex_bounds h
  unfold isPySpace
  simp only [List.contains_eq_mem, List.mem_cons, List.not_mem_nil, or_false, Bool.or_eq_false_iff,
    Bool.and_eq_false_iff, decide_eq_false_iff_not]
  omega

theorem hexDigit_isHex (n : Nat) : isHex (hexDigit n) := by
  have all : ∀ d < 16, isHex ("0123456789ABCDEF".toList.getD d '0') := by decide
  exact all (n % 16) (Nat.mod_lt n (by decide))

theorem hexDigitValue_hexDigit (n : Nat) : hexDigitValue (hexDigit n) = n % 16 := by
  have all : ∀ d < 16, hexDigitValue ("0123456789ABCDEF".toList.getD d '0') = d := by decide
  exact all (n % 16) (Nat.mod_lt n (by decide))

theorem hexDigits_length (width n : Nat) : (hexDigits width n).length = width := by
  induction width generalizing n with
  | zero => rfl
  | succ width ih => rw [hexDigits, List.length_append, ih, List.length_singleton]

theorem hexDigits_all (width n : Nat) : (hexDigits width n).all isHex := by
  induction width generalizing n with
  | zero => rfl
  | succ width ih => simp [hexDigits, ih, hexDigit_isHex]

theorem hexNumber_hexDigits (width n : Nat) : hexNumber (hexDigits width n) = n % 16 ^ width := by
  induction width generalizing n with
  | zero =>
    rw [pow_zero, Nat.mod_one]
    rfl
  | succ width ih =>
    unfold hexNumber at ih ⊢
    rw [hexDigits, List.foldl_append, ih, List.foldl_cons, List.foldl_nil, hexDigitValue_hexDigit,
      pow_succ', Nat.mod_mul, Nat.add_comm]

/-- A line that starts with a blank or none of the letters of `glabel` names no function. -/
theorem glabelName_other {line : Chars} (h : line.head? ≠ some 'g') : glabelName line = none := by
  refine if_neg fun both => h ?_
  cases line with
  | nil => exact absurd both.1 (by decide)
  | cons c rest =>
    have first := congrArg List.head? both.1
    exact first

theorem glabelName_text {name : Chars} (some_name : name ≠ []) (solid : name.all isNonSpace) :
    glabelName ("glabel ".toList ++ name) = some name := by
  have taken : (("glabel ".toList ++ name).drop 7).takeWhile isNonSpace = name :=
    List.takeWhile_eq_self_iff.mpr (List.all_eq_true.mp solid)
  have start : ("glabel ".toList ++ name).take 7 = "glabel ".toList := rfl
  unfold glabelName
  simp only [taken, start]
  exact if_pos ⟨trivial, some_name⟩

theorem dropWhile_spaces (n : Nat) (stops : ¬rest.head?.any isPySpace) :
    (spaces n ++ rest).dropWhile isPySpace = rest := dropWhile_run (spaces_all n) stops

theorem head_spaces (n : Nat) (other : rest.head? ≠ some 'g') :
    (spaces n ++ rest).head? ≠ some 'g' := by
  cases n with
  | zero => exact other
  | succ n => exact fun same => absurd (Option.some.inj same) (by decide)

theorem localLabel_text (indent : Nat) {digits : Chars} (some_digit : digits ≠ [])
    (hex : digits.all isHex) :
    localLabel (AsmLine.label indent digits).text = some ('L' :: digits) := by
  have body : (AsmLine.label indent digits).text.dropWhile isPySpace =
      '.' :: 'L' :: (digits ++ [':']) := by
    simp only [AsmLine.text, List.append_assoc]
    exact dropWhile_spaces indent Bool.false_ne_true
  have stops : ¬([':'] : Chars).head?.any isHex := by decide
  unfold localLabel
  rw [body]
  simp only [takeWhile_run hex stops, dropWhile_run hex stops]
  exact if_pos ⟨some_digit, rfl⟩

theorem hexField_text {digits : Chars} (some_digit : digits ≠ []) (hex : digits.all isHex)
    (stops : ¬rest.head?.any isPySpace) : hexField (digits ++ ' ' :: rest) = some (digits, rest) := by
  have blank : ¬(' ' :: rest).head?.any isHex := by
    intro h
    cases h
  unfold hexField
  simp only [takeWhile_run hex blank, dropWhile_run hex blank]
  rw [if_pos ⟨some_digit, rfl⟩, List.dropWhile_cons_of_pos rfl]
  cases rest with
  | nil => rfl
  | cons c rest => rw [List.dropWhile_cons_of_neg (by simpa using stops)]

theorem solid_head {text : Chars} (some_char : text ≠ []) (solid : text.all isNonSpace)
    (more : Chars) : ¬(text ++ more).head?.any isPySpace := by
  cases text with
  | nil => exact absurd rfl some_char
  | cons c text =>
    have first := List.all_eq_true.mp solid c List.mem_cons_self
    intro blank
    rw [List.cons_append, List.head?_cons, Option.any_some] at blank
    rw [isNonSpace, blank] at first
    cases first

theorem insnText_text (gap pad : Nat) {e : Insn} (some_mnem : e.mnem ≠ [])
    (solid : e.mnem.all isNonSpace) (operands : ¬e.ops.head?.any isPySpace) :
    insnText (spaces (gap + 1) ++ (e.mnem ++ if e.ops = [] then [] else spaces (pad + 1) ++ e.ops)) =
      some (e.mnem, e.ops) := by
  generalize tail_eq : (if e.ops = [] then [] else spaces (pad + 1) ++ e.ops) = tail
  have stops : ¬tail.head?.any isNonSpace := by
    rw [← tail_eq]
    split
    next => exact Bool.false_ne_true
    next => exact Bool.false_ne_true
  have left : tail.dropWhile isPySpace = e.ops := by
    rw [← tail_eq]
    split
    next none_there => rw [none_there, List.dropWhile_nil]
    next => exact dropWhile_spaces (pad + 1) operands
  have body := dropWhile_spaces (gap + 1) (solid_head some_mnem solid tail)
  unfold insnText
  simp only [body, takeWhile_run solid stops, dropWhile_run solid stops, left]
  exact if_pos ⟨rfl, some_mnem⟩

theorem hex_head {digits : Chars} (some_digit : digits ≠ []) (hex : digits.all isHex) (more : Chars) :
    ¬(digits ++ more).head?.any isPySpace := by
  apply solid_head some_digit
  rw [List.all_eq_true] at hex ⊢
  intro c here
  rw [isNonSpace, isHex_not_space (hex c here)]
  rfl

/-- The text of an instruction behind its indentation. -/
theorem insnAt_text (gap pad : Nat) {offset word : Chars} {e : Insn}
    (h : (AsmLine.insn 0 gap pad offset word e).WellFormed) :
    insnAt (AsmLine.insn 0 gap pad offset word e).text = some e := by
  obtain ⟨some_offset, offset_hex, word_length, word_hex, vram_lt, some_mnem, solid, operands⟩ := h
  have vram_length := hexDigits_length 8 e.vram
  have vram_hex := hexDigits_all 8 e.vram
  have some_vram : hexDigits 8 e.vram ≠ [] := List.ne_nil_of_length_eq_add_one vram_length
  have some_word : word ≠ [] := List.ne_nil_of_length_eq_add_one word_length
  generalize tail_eq : spaces (gap + 1) ++ (e.mnem ++
    if e.ops = [] then [] else spaces (pad + 1) ++ e.ops) = tail
  have shape : (AsmLine.insn 0 gap pad offset word e).text = '/' :: '*' :: ' ' ::
      (offset ++ ' ' :: (hexDigits 8 e.vram ++ ' ' :: (word ++ ' ' :: '*' :: '/' :: tail))) := by
    rw [← tail_eq]
    simp [AsmLine.text, spaces, List.replicate_succ]
  have third : hexField (word ++ ' ' :: '*' :: '/' :: tail) = some (word, '*' :: '/' :: tail) :=
    hexField_text some_word word_hex Bool.false_ne_true
  have second := hexField_text some_vram vram_hex
    (hex_head some_word word_hex (' ' :: '*' :: '/' :: tail))
  have first := hexField_text some_offset offset_hex
    (hex_head some_vram vram_hex (' ' :: (word ++ ' ' :: '*' :: '/' :: tail)))
  have last := insnText_text gap pad some_mnem solid operands
  rw [tail_eq] at last
  have blank : ∀ more : Chars, ¬(!(' ' :: more).head?.any isPySpace) = true :=
    fun _ => Bool.false_ne_true
  have body := dropWhile_spaces 1 (hex_head some_offset offset_hex
    (' ' :: (hexDigits 8 e.vram ++ ' ' :: (word ++ ' ' :: '*' :: '/' :: tail))))
  have whole := hexNumber_hexDigits 8 e.vram
  rw [Nat.mod_eq_of_lt vram_lt] at whole
  rw [shape]
  simp only [insnAt]
  rw [if_neg (blank _)]
  refine (congrArg (Option.bind · _) ((congrArg hexField body).trans first)).trans ?_
  simp only [Option.bind_some, second, third]
  rw [if_pos ⟨vram_length, word_length, rfl⟩]
  change (insnText tail).map _ = _
  rw [last, Option.map_some, whole]

theorem insnOf_spaces (n : Nat) (text : Chars) : insnOf (spaces n ++ text) = insnOf text := by
  induction n with
  | zero => rfl
  | succ n ih => exact ih

theorem insn_text_eq (indent gap pad : Nat) (offset word : Chars) (e : Insn) :
    (AsmLine.insn indent gap pad offset word e).text =
      spaces indent ++ (AsmLine.insn 0 gap pad offset word e).text := by
  simp [AsmLine.text, spaces]

theorem insnOf_text (indent gap pad : Nat) {offset word : Chars} {e : Insn}
    (h : (AsmLine.insn indent gap pad offset word e).WellFormed) :
    insnOf (AsmLine.insn indent gap pad offset word e).text = some e := by
  have found : insnAt (AsmLine.insn 0 gap pad offset word e).text = some e := insnAt_text gap pad h
  rw [insn_text_eq, insnOf_spaces]
  cases text : (AsmLine.insn 0 gap pad offset word e).text with
  | nil =>
    rw [text] at found
    cases found
  | cons c rest =>
    rw [text] at found
    rw [insnOf, found, Option.some_or]

/-- One line takes the reader to the function so far with that line in it. -/
theorem parseLine_text {line : AsmLine} (h : line.WellFormed) {s : ParseState} {func : Chars}
    (reading : s.func = some func) :
    parseLine s line.text =
      { s with
        body := s.body ++ line.insn?.toList
        labels := line.label?.elim s.labels fun name =>
          Function.update s.labels name (some s.body.length) } := by
  cases line with
  | label indent digits =>
    have other : glabelName (AsmLine.label indent digits).text = none := by
      apply glabelName_other
      simp only [AsmLine.text, List.append_assoc]
      exact head_spaces indent fun same => absurd (Option.some.inj same) (by decide)
    simp [parseLine, other, localLabel_text indent h.1 h.2, AsmLine.insn?, AsmLine.label?]
  | insn indent gap pad offset word e =>
    have starts : (AsmLine.insn 0 gap pad offset word e).text.head? = some '/' := by
      simp [AsmLine.text, spaces]
    have other : glabelName (AsmLine.insn indent gap pad offset word e).text = none := by
      apply glabelName_other
      rw [insn_text_eq]
      apply head_spaces
      rw [starts]
      exact fun same => absurd (Option.some.inj same) (by decide)
    have unlabelled : localLabel (AsmLine.insn indent gap pad offset word e).text = none := by
      rw [insn_text_eq]
      unfold localLabel
      rw [dropWhile_spaces indent (by rw [starts]; exact Bool.false_ne_true)]
      simp [AsmLine.text, spaces]
    simp [parseLine, other, unlabelled, insnOf_text indent gap pad h, reading, AsmLine.insn?,
      AsmLine.label?]
  | other line => simp [AsmLine.text, parseLine, h.1, h.2.1, h.2.2, AsmLine.insn?, AsmLine.label?]

theorem labelPlace_snoc (lines : List AsmLine) (line : AsmLine) (name : Chars) :
    labelPlace (lines ++ [line]) name =
      if line.label? = some name then some (insnsOf lines).length else labelPlace lines name := by
  have before : (List.range lines.length).filter (fun i =>
      ((lines ++ [line])[i]?).bind AsmLine.label? = some name) =
      (List.range lines.length).filter fun i => (lines[i]?).bind AsmLine.label? = some name := by
    apply List.filter_congr
    intro i inside
    rw [List.getElem?_append_left (List.mem_range.mp inside)]
  have last : (lines ++ [line])[lines.length]? = some line := List.getElem?_concat_length
  unfold labelPlace
  rw [List.length_append, List.length_singleton, List.range_succ, List.filter_append, before,
    List.filter_cons, last, Option.bind_some, List.filter_nil]
  by_cases here : line.label? = some name
  · simp [here]
  · simp only [here, decide_false, Bool.false_eq_true, if_false, List.append_nil]
    cases places : ((List.range lines.length).filter fun i =>
        (lines[i]?).bind AsmLine.label? = some name).getLast? with
    | none => rfl
    | some i =>
      have inside : i < lines.length :=
        List.mem_range.mp (List.mem_filter.mp (List.mem_of_getLast? places)).1
      simp only [Option.map_some, List.take_append_of_le_length inside.le]

theorem insnsOf_snoc (lines : List AsmLine) (line : AsmLine) :
    insnsOf (lines ++ [line]) = insnsOf lines ++ line.insn?.toList := by
  rw [insnsOf, List.filterMap_append]
  cases h : line.insn? <;> simp [insnsOf, h]

theorem foldl_lines (out : List ListedFunc) (func : Chars) {lines : List AsmLine}
    (h : ∀ line ∈ lines, line.WellFormed) :
    (lines.map AsmLine.text).foldl parseLine ⟨out, some func, [], fun _ => none⟩ =
      ⟨out, some func, insnsOf lines, labelPlace lines⟩ := by
  induction lines using List.reverseRecOn with
  | nil => rfl
  | append_singleton lines line ih =>
    have before := ih fun line' member => h line' (List.mem_append_left _ member)
    have last := h line (List.mem_append_right _ List.mem_cons_self)
    rw [List.map_append, List.foldl_append, before, List.map_singleton, List.foldl_cons,
      List.foldl_nil, parseLine_text last rfl, insnsOf_snoc]
    congr 1
    funext name
    rw [labelPlace_snoc]
    cases label : line.label? with
    | none => simp
    | some here =>
      rw [Option.elim_some, Function.update_apply]
      simp [eq_comm]

theorem foldl_func {f : AsmFunc} (h : f.WellFormed) (s : ParseState) :
    f.text.foldl parseLine s = ⟨s.close, some f.name, insnsOf f.lines, labelPlace f.lines⟩ := by
  have named : parseLine s ("glabel ".toList ++ f.name) =
      ⟨s.close, some f.name, [], fun _ => none⟩ := by
    unfold parseLine
    rw [glabelName_text h.1 h.2.1]
  rw [AsmFunc.text, List.foldl_cons, named, foldl_lines _ _ h.2.2]

theorem close_funcs {fs : List AsmFunc} (h : ∀ f ∈ fs, f.WellFormed) (s : ParseState) :
    ((fs.flatMap AsmFunc.text).foldl parseLine s).close = s.close ++ fs.map AsmFunc.listed := by
  induction fs generalizing s with
  | nil => simp
  | cons f fs ih =>
    have rest := fun s => ih (fun f' member => h f' (List.mem_cons_of_mem f member)) s
    rw [List.flatMap_cons, List.foldl_append, rest, foldl_func (h f List.mem_cons_self)]
    simp [ParseState.close, AsmFunc.listed]

theorem foldl_prologue {lines : List Chars} (h : ∀ line ∈ lines, glabelName line = none)
    {s : ParseState} (outside : s.func = none) :
    (lines.foldl parseLine s).out = s.out ∧ (lines.foldl parseLine s).func = none := by
  induction lines generalizing s with
  | nil => exact ⟨rfl, outside⟩
  | cons line lines ih =>
    have step : (parseLine s line).out = s.out ∧ (parseLine s line).func = none := by
      unfold parseLine
      rw [h line List.mem_cons_self]
      cases localLabel line with
      | some name => exact ⟨rfl, outside⟩
      | none =>
        cases insnOf line with
        | none => exact ⟨rfl, outside⟩
        | some e => simp [outside]
    have rest := ih (fun line' member => h line' (List.mem_cons_of_mem line member)) step.2
    rw [List.foldl_cons]
    exact ⟨rest.1.trans step.1, rest.2⟩

/-- What is read of a disassembled file is the functions it was written from, with the instructions
and the labels of each where they stood; what comes before the first is skipped. -/
theorem parse_text {prologue : List Chars} (unnamed : ∀ line ∈ prologue, glabelName line = none)
    {fs : List AsmFunc} (h : ∀ f ∈ fs, f.WellFormed) :
    parse (prologue ++ fs.flatMap AsmFunc.text) = fs.map AsmFunc.listed := by
  obtain ⟨out, func⟩ := foldl_prologue unnamed (s := ParseState.start) rfl
  have nothing : (prologue.foldl parseLine ParseState.start).close = [] := by
    unfold ParseState.close
    rw [func, out]
    rfl
  rw [parse, List.foldl_append, close_funcs h, nothing, List.nil_append]

end

def waitListing : AsmFunc :=
  ⟨"func_8008F344".toList,
    [.insn 4 8 9 "8FF44".toList "00000000".toList ⟨0x8008F344, "nop".toList, []⟩,
      .label 2 "8008F348".toList,
      .insn 4 8 9 "8FF48".toList "0C023BDB".toList ⟨0x8008F348, "jal".toList, "func_8008EF6C".toList⟩,
      .other [],
      .insn 4 8 9 "8FF50".toList "1440FFFD".toList
        ⟨0x8008F350, "bnez".toList, "$v0, .L8008F348".toList⟩]⟩

theorem parse_waitListing :
    parse (["glabel".toList] ++ [waitListing].flatMap AsmFunc.text) =
      [waitListing].map AsmFunc.listed := by
  have solid : waitListing.WellFormed := by
    have named : "func_8008F344".toList ≠ [] ∧ "func_8008F344".toList.all isNonSpace = true := by
      decide +kernel
    have lines : ∀ line ∈ waitListing.lines, line.WellFormed := by decide +kernel
    exact ⟨named.1, named.2, lines⟩
  refine parse_text (fun line here => ?_) fun f here => ?_
  · rw [List.mem_singleton.mp here]
    decide +kernel
  · rw [List.mem_singleton.mp here]
    exact solid

end Rayman2Recomp
