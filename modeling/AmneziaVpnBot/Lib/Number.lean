import AmneziaVpnBot.Lib.Json
import Mathlib.Algebra.Group.Nat.Defs

/-! Numbers as Python reads them: an integer in a string, with the digits of any script, and a literal of
JSON, which is an integer or else the binary64 nearest to it. A finite binary64 is kept by its magnitude in
units of the smallest one, `2 ^ -1074`. -/

/-! ### Binary64 -/

inductive Float64
  | finite (negative : Bool) (magnitude : ℕ)
  | infinite (negative : Bool)
  | nan
  deriving DecidableEq

namespace Float64

/-- The integer nearest to `n / d`, the even one of two. -/
def roundHalfEven (n d : ℕ) : ℕ :=
  if 2 * (n % d) < d ∨ (2 * (n % d) = d ∧ n / d % 2 = 0) then n / d else n / d + 1

/-- `n / d` in units of `2 ^ -1074` with 53 significant bits. -/
def magnitude (n d : ℕ) : ℕ :=
  let units := n * 2 ^ 1074
  let excess := (units / d).log2 + 1 - 53
  roundHalfEven units (d * 2 ^ excess) * 2 ^ excess

/-- The binary64 nearest to `n / d`, or to its negative. -/
def nearest (negative : Bool) (n d : ℕ) : Float64 :=
  if magnitude n d < 2 ^ (1024 + 1074) then .finite negative (magnitude n d) else .infinite negative

-- 0.1 is 3602879701896397 / 2 ^ 55, and 2 ^ 1024 - 2 ^ 970 is already infinite
example : nearest false 1 10 = .finite false (3602879701896397 * 2 ^ 1019) := by decide +kernel

example : nearest true (2 ^ 1024 - 2 ^ 970) 1 = .infinite true ∧
    nearest true (2 ^ 1024 - 2 ^ 970 - 1) 1 = .finite true ((2 ^ 53 - 1) * 2 ^ (971 + 1074)) := by decide +kernel

/-- `int(x)` of a finite number drops the fraction. -/
def truncate (negative : Bool) (magnitude : ℕ) : ℤ :=
  let n : ℕ := magnitude / 2 ^ 1074
  if negative then -n else n

end Float64

namespace Json

/-! ### Literals -/

/-- A number of Python. -/
inductive Number
  | int (n : ℤ)
  | float (x : Float64)
  deriving DecidableEq

def decimal (digits : Text) : ℕ := digits.foldl (fun n c => 10 * n + (c.toNat - '0'.toNat)) 0

/-- The power of ten that an exponent stands for. -/
def readExponent : Text → ℤ
  | _ :: '-' :: digits => -(decimal digits)
  | _ :: '+' :: digits => decimal digits
  | _ :: digits => decimal digits
  | [] => 0

/-- `-?` and digits are an integer; with a fraction or an exponent the literal is a float. -/
def readDecimal (negative : Bool) (body : Text) : Number :=
  let whole := body.takeWhile Char.isDigit
  let rest := body.drop whole.length
  let fraction := scanFraction rest
  let shift := readExponent (rest.drop fraction.length) - (fraction.length - 1 : ℕ)
  if rest = [] then .int (if negative then -(decimal whole) else decimal whole)
  else .float (.nearest negative (decimal (whole ++ fraction.tail) * 10 ^ shift.toNat) (10 ^ (-shift).toNat))

/-- The number that `json.loads` makes of a literal. -/
def readNumber (literal : Text) : Number :=
  if literal = "NaN".toList then .float .nan
  else if literal = "Infinity".toList then .float (.infinite false)
  else if literal = "-Infinity".toList then .float (.infinite true)
  else if literal.head? = some '-' then readDecimal true literal.tail
  else readDecimal false literal

example : ["-12", "1.5e1", "25E-1", "1e400", "-0.0"].map (readNumber ·.toList) =
    [.int (-12), .float (.finite false (15 * 2 ^ 1074)), .float (.finite false (5 * 2 ^ 1073)),
      .float (.infinite false), .float (.finite true 0)] := by decide +kernel

/-- An integer as Python writes it is read back. -/
theorem readNumber_toDigits (n : ℕ) : readNumber (Nat.toDigits 10 n) = .int n := by
  have hdigits : ∀ c ∈ Nat.toDigits 10 n, c.isDigit = true :=
    fun c hc => Nat.isDigit_of_mem_toDigits (by decide) (by decide) hc
  have hne : ∀ t : Text, (∃ c ∈ t.head?, c.isDigit = false) → Nat.toDigits 10 n ≠ t := by
    rintro t ⟨c, hc, hnot⟩ rfl
    rw [hdigits c (List.mem_of_mem_head? hc)] at hnot
    cases hnot
  have hminus : (Nat.toDigits 10 n).head? ≠ some '-' := fun h => hne _ ⟨'-', h, rfl⟩ rfl
  have hwhole : (Nat.toDigits 10 n).takeWhile Char.isDigit = Nat.toDigits 10 n := List.takeWhile_eq_self_iff.mpr hdigits
  have hvalue : decimal (Nat.toDigits 10 n) = n := Nat.ofDigitChars_ten_toDigits
  rw [readNumber, if_neg (hne _ ⟨'N', rfl, rfl⟩), if_neg (hne _ ⟨'I', rfl, rfl⟩), if_neg (hne _ ⟨'-', rfl, rfl⟩),
    if_neg hminus, readDecimal]
  simp [hwhole, hvalue]

/-! ### Integers in strings -/

/-- The zeros of the scripts that have decimal digits. -/
def zeros : List ℕ :=
  [0x30, 0x660, 0x6f0, 0x7c0, 0x966, 0x9e6, 0xa66, 0xae6, 0xb66, 0xbe6, 0xc66, 0xce6, 0xd66, 0xde6, 0xe50, 0xed0,
    0xf20, 0x1040, 0x1090, 0x17e0, 0x1810, 0x1946, 0x19d0, 0x1a80, 0x1a90, 0x1b50, 0x1bb0, 0x1c40, 0x1c50, 0xa620,
    0xa8d0, 0xa900, 0xa9d0, 0xa9f0, 0xaa50, 0xabf0, 0xff10, 0x104a0, 0x10d30, 0x11066, 0x110f0, 0x11136, 0x111d0,
    0x112f0, 0x11450, 0x114d0, 0x11650, 0x116c0, 0x11730, 0x118e0, 0x11950, 0x11c50, 0x11d50, 0x11da0, 0x11f50,
    0x16a60, 0x16ac0, 0x16b50, 0x1d7ce, 0x1d7d8, 0x1d7e2, 0x1d7ec, 0x1d7f6, 0x1e140, 0x1e2f0, 0x1e4f0, 0x1e950,
    0x1fbf0]

def digitValue (c : ℕ) : Option ℕ := (zeros.find? fun z => z ≤ c && c < z + 10).map (c - ·)

/-- What `int` skips around the digits: of ASCII, less than what is white space elsewhere. -/
def isPadding (c : ℕ) : Bool := if c < 127 then (9 ≤ c && c ≤ 13) || c == 32 else Text.isSpace (.ofNat c)

/-- Digits, which single underscores may part. -/
def readDigits (s : Str) : Option (List ℕ) :=
  ((s.splitOn 95).mapM fun part => if part = [] then none else part.mapM digitValue).map List.flatten

/-- `int(s)`; more digits than `maxDigits` are refused. -/
def readInt (s : Str) : Option ℤ :=
  let body := (s.dropWhile isPadding).rdropWhile isPadding
  let negative := body.head? == some 45
  let unsigned := if negative || body.head? == some 43 then body.tail else body
  (readDigits unsigned).bind fun digits =>
    if maxDigits < digits.length then none
    else
      let n : ℕ := digits.foldl (fun n d => 10 * n + d) 0
      some (if negative then -n else n)

example : readInt ("\n -1_0\x0c".toList.map Char.toNat) = some (-10) ∧ readInt [0x85, 0x661, 0x30] = some 10 ∧
    readInt [0x1c, 0x30] = none ∧ readInt [0x31, 95] = none ∧ readInt [] = none := by decide

end Json
