import Mathlib.Data.Nat.Bitwise
import Mathlib.Data.List.Basic

namespace CNumbers

abbrev Text := List UInt8

def charBytes (chars : List Char) : Text := chars.map fun c => UInt8.ofNat c.toNat

/-- `isspace` of the C locale. -/
def isSpace (c : UInt8) : Bool := c == 0x20 || (0x09 ≤ c && c ≤ 0x0D)

def digitValue (c : UInt8) : Nat :=
  if 0x30 ≤ c ∧ c ≤ 0x39 then c.toNat - 0x30
  else if 0x41 ≤ c ∧ c ≤ 0x5A then c.toNat - 0x41 + 10
  else if 0x61 ≤ c ∧ c ≤ 0x7A then c.toNat - 0x61 + 10
  else 36

def isDigit (base : Nat) (c : UInt8) : Bool := digitValue c < base

/-- The base a number is written in when none is given, and the text of its digits. -/
def basePrefix : Text → Nat × Text
  | 0x30 :: x :: digit :: rest =>
    if (x == 0x78 || x == 0x58) && isDigit 16 digit then (16, digit :: rest)
    else (8, 0x30 :: x :: digit :: rest)
  | 0x30 :: rest => (8, 0x30 :: rest)
  | text => (10, text)

def signed : Text → Bool × Text
  | 0x2D :: rest => (true, rest)
  | 0x2B :: rest => (false, rest)
  | text => (false, text)

/-- `strtoul` with base 0 and the largest `unsigned long` given: the value and what follows the
number, or nothing when no number stands there. -/
def strtoul (ulongMax : Nat) (text : Text) : Option (Nat × Text) :=
  let (negative, unsigned) := signed (text.dropWhile isSpace)
  let (base, digits) := basePrefix unsigned
  let run := digits.takeWhile (isDigit base)
  if run = [] then none
  else
    let magnitude := run.foldl (fun n c => base * n + digitValue c) 0
    let value :=
      if ulongMax < magnitude then ulongMax
      else if negative then (ulongMax + 1 - magnitude) % (ulongMax + 1)
      else magnitude
    some (value, digits.dropWhile (isDigit base))

def decimal (n : Nat) : Text := charBytes (Nat.toDigits 10 n)

def upperHex (n : Nat) : Text := charBytes ((Nat.toDigits 16 n).map Char.toUpper)

/-- `%d` -/
def decimalInt (n : Int) : Text := (if n < 0 then [0x2D] else []) ++ decimal n.natAbs

/-- The nearest multiple, a tie going to the even one. -/
def roundDiv (n d : Nat) : Nat :=
  if 2 * (n % d) < d ∨ (2 * (n % d) = d ∧ n / d % 2 = 0) then n / d else n / d + 1

/-- `mantissa * 2 ^ exponent` in thousandths. -/
def thousandths (mantissa : Nat) (exponent : Int) : Nat :=
  if 0 ≤ exponent then mantissa * 2 ^ exponent.toNat * 1000
  else roundDiv (mantissa * 1000) (2 ^ (-exponent).toNat)

def biasedExponent (word : UInt32) : Nat := (word >>> 23).toNat % 256

def fraction (word : UInt32) : Nat := word.toNat % 2 ^ 23

/-- The magnitude of a finite single-precision number. -/
def singleThousandths (word : UInt32) : Nat :=
  if biasedExponent word = 0 then thousandths (fraction word) (-149)
  else thousandths (2 ^ 23 + fraction word) (biasedExponent word - 150)

def signText (word : UInt32) : Text := if 2 ^ 31 ≤ word.toNat then [0x2D] else []

/-- `%.3f` of the single-precision number a word holds; how a NaN is written is the library's. -/
def fixedThree (nanText : UInt32 → Text) (word : UInt32) : Text :=
  if biasedExponent word = 255 then
    if fraction word = 0 then signText word ++ charBytes ['i', 'n', 'f'] else nanText word
  else
    signText word ++ decimal (singleThousandths word / 1000) ++
      0x2E :: (decimal (singleThousandths word % 1000)).leftpad 3 0x30

theorem decimal_length_le {n k : Nat} (positive : 0 < k) :
    (decimal n).length ≤ k ↔ n < 10 ^ k := by
  rw [decimal, charBytes, List.length_map]
  exact Nat.length_toDigits_le_iff (by decide) positive

theorem upperHex_length_le {n k : Nat} (positive : 0 < k) :
    (upperHex n).length ≤ k ↔ n < 16 ^ k := by
  rw [upperHex, charBytes, List.length_map, List.length_map]
  exact Nat.length_toDigits_le_iff (by decide) positive

theorem decimal_length {n k : Nat} (positive : 0 < k) (low : 10 ^ k ≤ n) (high : n < 10 ^ (k + 1)) :
    (decimal n).length = k + 1 := by
  have upper := (decimal_length_le (Nat.succ_pos k)).mpr high
  have lower : ¬(decimal n).length ≤ k := fun short =>
    absurd ((decimal_length_le positive).mp short) (Nat.not_lt.mpr low)
  omega

theorem roundDiv_le (n d : Nat) : roundDiv n d ≤ n / d + 1 := by
  unfold roundDiv
  split <;> omega

/-- No finite number needs more than 39 digits before the point. -/
theorem thousandths_lt {mantissa : Nat} {exponent : Int} (single : mantissa < 2 ^ 24)
    (bounded : exponent ≤ 104) : thousandths mantissa exponent / 1000 < 10 ^ 39 := by
  unfold thousandths
  split
  case isTrue positive =>
    rw [Nat.mul_div_cancel _ (by decide)]
    have power : 2 ^ exponent.toNat ≤ 2 ^ 104 :=
      Nat.pow_le_pow_right (by decide) (by omega)
    calc mantissa * 2 ^ exponent.toNat ≤ 2 ^ 24 * 2 ^ 104 :=
          Nat.mul_le_mul (Nat.le_of_lt single) power
      _ < 10 ^ 39 := by decide
  case isFalse =>
    have rounded := roundDiv_le (mantissa * 1000) (2 ^ (-exponent).toNat)
    have quotient : mantissa * 1000 / 2 ^ (-exponent).toNat ≤ mantissa * 1000 := Nat.div_le_self _ _
    omega

theorem singleThousandths_lt {word : UInt32} (finite : biasedExponent word ≠ 255) :
    singleThousandths word / 1000 < 10 ^ 39 := by
  have small : fraction word < 2 ^ 23 := Nat.mod_lt _ (by decide)
  have biased : biasedExponent word < 256 := Nat.mod_lt _ (by decide)
  unfold singleThousandths
  split
  · exact thousandths_lt (by omega) (by omega)
  · exact thousandths_lt (by omega) (by omega)

theorem signText_length (word : UInt32) : (signText word).length ≤ 1 := by
  unfold signText
  split <;> simp

theorem threeDigits_length (t : Nat) : ((decimal (t % 1000)).leftpad 3 0x30).length = 3 := by
  have short := (decimal_length_le (n := t % 1000) (k := 3) (by decide)).mpr (by omega)
  rw [List.length_leftpad]
  omega

theorem fixedThree_length {nanText : UInt32 → Text} {word : UInt32}
    (finite : biasedExponent word ≠ 255) :
    (fixedThree nanText word).length =
      (signText word).length + (decimal (singleThousandths word / 1000)).length + 4 := by
  rw [fixedThree, if_neg finite, List.length_append, List.length_append, List.length_cons,
    threeDigits_length]

theorem fixedThree_length_le (nanText : UInt32 → Text) {word : UInt32}
    (nan : (nanText word).length ≤ 44) : (fixedThree nanText word).length ≤ 44 := by
  have sign := signText_length word
  by_cases finite : biasedExponent word = 255
  · rw [fixedThree, if_pos finite]
    split
    · have inf : (charBytes ['i', 'n', 'f']).length = 3 := rfl
      rw [List.length_append]
      omega
    · exact nan
  · have whole := (decimal_length_le (by decide)).mpr (singleThousandths_lt finite)
    rw [fixedThree_length finite]
    omega

end CNumbers
