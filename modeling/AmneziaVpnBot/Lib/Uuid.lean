import AmneziaVpnBot.Lib.Text
import Mathlib.Data.Nat.Digits.Defs
import Mathlib.Tactic.Ring

/-! UUIDs and the two ways Python writes them: 32 hex digits, and the same digits in five groups
with hyphens between them. Both tell two UUIDs apart. -/

/-- The last `k` hex digits of a number, with leading zeros. -/
def hexDigits : ℕ → ℕ → List ℕ
  | 0, _ => []
  | k + 1, n => hexDigits k (n / 16) ++ [n % 16]

/-- The number a list of hex digits stands for. -/
def ofHexDigits (ds : List ℕ) : ℕ := ds.foldl (fun n d => 16 * n + d) 0

@[simp] theorem length_hexDigits (k n : ℕ) : (hexDigits k n).length = k := by
  induction k generalizing n with
  | zero => rfl
  | succ k ih => simp [hexDigits, ih]

theorem lt_of_mem_hexDigits {k n d : ℕ} (h : d ∈ hexDigits k n) : d < 16 := by
  induction k generalizing n with
  | zero => cases h
  | succ k ih =>
    rcases List.mem_append.mp h with h | h
    · exact ih h
    · rw [List.mem_singleton.mp h]
      exact Nat.mod_lt _ (by decide)

/-- The digits give the number back, up to the digits that were left out. -/
theorem ofHexDigits_hexDigits (k n : ℕ) : ofHexDigits (hexDigits k n) = n % 16 ^ k := by
  induction k generalizing n with
  | zero => simp [hexDigits, ofHexDigits, Nat.mod_one]
  | succ k ih =>
    have hread : ofHexDigits (hexDigits (k + 1) n) = 16 * ofHexDigits (hexDigits k (n / 16)) + n % 16 := by
      simp [hexDigits, ofHexDigits]
    rw [hread, ih, pow_succ', Nat.mod_mul]
    omega

structure Uuid where
  value : ℕ
  lt : value < 2 ^ 128
  deriving DecidableEq

namespace Uuid

def digits (id : Uuid) : List ℕ := hexDigits 32 id.value

/-- `id.hex` -/
def hex (id : Uuid) : Text := id.digits.map Nat.digitChar

/-- `str(id)` -/
def text (id : Uuid) : Text :=
  id.hex.take 8 ++ '-' :: (id.hex.drop 8).take 4 ++ '-' :: (id.hex.drop 12).take 4 ++ '-' :: (id.hex.drop 16).take 4 ++
    '-' :: id.hex.drop 20

/-- The first eight hex digits, as a number. -/
def hex8 (id : Uuid) : ℕ := id.value / 16 ^ 24

@[simp] theorem length_hex (id : Uuid) : id.hex.length = 32 := by simp [hex, digits]

theorem ofHexDigits_digits (id : Uuid) : ofHexDigits id.digits = id.value := by
  rw [digits, ofHexDigits_hexDigits]
  exact Nat.mod_eq_of_lt (id.lt.trans_eq (by norm_num))

theorem exists_digit_of_mem_hex {id : Uuid} {c : Char} (h : c ∈ id.hex) : ∃ d < 16, c = Nat.digitChar d := by
  obtain ⟨d, hd, rfl⟩ := List.mem_map.mp h
  exact ⟨d, lt_of_mem_hexDigits hd, rfl⟩

/-- A character that is not a lower case hex digit is not in the hex form. -/
theorem not_mem_hex {c : Char} (hc : ∀ d < 16, c ≠ Nat.digitChar d) (id : Uuid) : c ∉ id.hex := fun h => by
  obtain ⟨d, hd, he⟩ := exists_digit_of_mem_hex h
  exact hc d hd he

theorem hex8_lt (id : Uuid) : id.hex8 < 16 ^ (7 + 1) := by
  have hpow : (2 : ℕ) ^ 128 = 16 ^ 24 * 16 ^ (7 + 1) := by norm_num
  have hlt := id.lt
  rw [hpow] at hlt
  exact Nat.div_lt_of_lt_mul hlt

end Uuid
