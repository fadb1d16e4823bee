import AmneziaVpnBot.Lib.Number
import Mathlib.Data.Nat.Log
import Mathlib.Tactic.Ring
import Mathlib.Tactic.Linarith

/-! The order of binary64 and its subtraction, which rounds to nearest. A rounded difference compares with
a number of the format as the exact one does, or is equal to it; and between a number and its double it
is exact. -/

namespace Float64

/-- The value of a finite number in units of the smallest one. -/
def units (negative : Bool) (magnitude : ℕ) : ℤ := if negative then -magnitude else magnitude

def lt : Float64 → Float64 → Bool
  | .nan, _ | _, .nan => false
  | .infinite s, .infinite s' => s && !s'
  | .infinite s, .finite .. => s
  | .finite .., .infinite s => !s
  | .finite s m, .finite s' m' => units s m < units s' m'

/-- `x >= y` -/
def ge (x y : Float64) : Bool := x ≠ .nan && y ≠ .nan && !lt x y

/-- `max(x, y)` -/
def max (x y : Float64) : Float64 := if lt x y then y else x

/-- The binary64 nearest to a value. -/
def round (value : ℤ) : Float64 := nearest (value < 0) value.natAbs (2 ^ 1074)

def sub : Float64 → Float64 → Float64
  | .nan, _ | _, .nan => .nan
  | .infinite s, .infinite s' => if s = s' then .nan else .infinite s
  | .infinite s, .finite .. => .infinite s
  | .finite .., .infinite s => .infinite !s
  | .finite s m, .finite s' m' =>
    -- the difference of two zeros is negative only for -0.0 - 0.0
    if m = 0 ∧ m' = 0 then .finite (s && !s') 0 else round (units s m - units s' m')

def second : ℕ := 2 ^ 1074

/-- A natural number of seconds that has no more than 53 bits. -/
def ofSeconds (n : ℕ) : Float64 := .finite false (n * second)

-- the spacing around 2 ^ 53 is 1 below and 2 above
example : sub (ofSeconds (2 ^ 53)) (.finite false (second / 2)) = ofSeconds (2 ^ 53) ∧
    sub (ofSeconds 3) (ofSeconds 5) = .finite true (2 * second) ∧
    lt (sub (ofSeconds 3) (ofSeconds 5)) (.finite true 0) = true := by decide +kernel

/-- At most 53 significant bits. -/
def Significant (m : ℕ) : Prop := ∃ k e, k < 2 ^ 53 ∧ m = k * 2 ^ e

/-- What 64 bits can hold. -/
def Valid : Float64 → Prop
  | .finite _ m => Significant m ∧ m < 2 ^ (1024 + 1074)
  | _ => True

@[simp] theorem lt_nan (x : Float64) : lt x .nan = false := by cases x <;> rfl

@[simp] theorem nan_lt (x : Float64) : lt .nan x = false := rfl

@[simp] theorem lt_negInfinite (x : Float64) : lt x (.infinite true) = false := by
  cases x with
  | infinite s => cases s <;> rfl
  | _ => rfl

theorem lt_of_not_ge {x y : Float64} (hx : x ≠ .nan) (hy : y ≠ .nan) (h : ge x y = false) : lt x y = true := by
  simpa [ge, hx, hy] using h

theorem lt_finite {s s' : Bool} {m m' : ℕ} : lt (.finite s m) (.finite s' m') = true ↔ units s m < units s' m' :=
  decide_eq_true_iff

/-! ### Rounding -/

theorem le_roundHalfEven (n d : ℕ) : n / d ≤ roundHalfEven n d := by
  unfold roundHalfEven
  split <;> omega

theorem roundHalfEven_le (n d : ℕ) : roundHalfEven n d ≤ n / d + 1 := by
  unfold roundHalfEven
  split <;> omega

theorem roundHalfEven_mul (c d : ℕ) (hd : 0 < d) : roundHalfEven (c * d) d = c := by
  unfold roundHalfEven
  rw [Nat.mul_mod_left, Nat.mul_div_cancel _ hd, if_pos (.inl (by omega))]

theorem roundHalfEven_mul_mul (n d a : ℕ) (ha : 0 < a) : roundHalfEven (n * a) (d * a) = roundHalfEven n d := by
  unfold roundHalfEven
  have hless : 2 * (n % d * a) < d * a ↔ 2 * (n % d) < d := by
    rw [← Nat.mul_assoc]
    exact Nat.mul_lt_mul_right ha
  have hsame : 2 * (n % d * a) = d * a ↔ 2 * (n % d) = d := by
    rw [← Nat.mul_assoc]
    exact Nat.mul_left_inj (by omega)
  simp only [Nat.mul_mod_mul_right, Nat.mul_div_mul_right _ _ ha, hless, hsame]

/-- The spacing of the format at `n` units. -/
def ulp (n : ℕ) : ℕ := 2 ^ (n.log2 + 1 - 53)

theorem ulp_pos (n : ℕ) : 0 < ulp n := Nat.two_pow_pos _

theorem magnitude_units (n : ℕ) : magnitude n (2 ^ 1074) = roundHalfEven n (ulp n) * ulp n := by
  have hpow := pow_pos Nat.two_pos 1074
  unfold magnitude ulp
  generalize 2 ^ 1074 = smallest at hpow ⊢
  dsimp only
  rw [Nat.mul_div_cancel _ hpow, Nat.mul_comm smallest, roundHalfEven_mul_mul _ _ _ hpow]

/-- Above the leading bit of `n`, the numbers of the format are multiples of the spacing at `n`. -/
theorem ulp_dvd {m n : ℕ} (hm : Significant m) (h : 2 ^ n.log2 ≤ m) : ulp n ∣ m := by
  obtain ⟨k, e, hk, rfl⟩ := hm
  by_cases he : n.log2 + 1 - 53 ≤ e
  · exact (Nat.pow_dvd_pow 2 he).trans (Nat.dvd_mul_left _ _)
  · have hlarge : k * 2 ^ e < 2 ^ 53 * 2 ^ e := Nat.mul_lt_mul_of_pos_right hk (Nat.two_pow_pos e)
    have hsmall : 2 ^ 53 * 2 ^ e ≤ 2 ^ n.log2 := by
      rw [← Nat.pow_add]
      exact Nat.pow_le_pow_right (by omega) (by omega)
    omega

theorem significant_pow (e : ℕ) : Significant (2 ^ e) := ⟨1, e, by omega, (Nat.one_mul _).symm⟩

theorem valid_ofSeconds {n : ℕ} (hn : n < 2 ^ 53) : Valid (ofSeconds n) := by
  refine ⟨⟨n, 1074, hn, by rw [second]⟩, ?_⟩
  have hlt : n * second < 2 ^ 53 * second := Nat.mul_lt_mul_of_pos_right hn (pow_pos Nat.two_pos 1074)
  have hle : 2 ^ 53 * second ≤ 2 ^ (1024 + 1074) := by
    rw [second, ← pow_add]
    exact pow_le_pow_right₀ (by omega) (by omega)
  exact lt_of_lt_of_le hlt hle

theorem le_magnitude {m n : ℕ} (hm : Significant m) (h : m ≤ n) : m ≤ magnitude n (2 ^ 1074) := by
  have hmultiple : ∀ l, Significant l → 2 ^ n.log2 ≤ l → l ≤ n → l ≤ magnitude n (2 ^ 1074) := by
    intro l hl hlead hle
    obtain ⟨c, rfl⟩ := ulp_dvd hl hlead
    have hc : c ≤ n / ulp n := (Nat.le_div_iff_mul_le (ulp_pos n)).mpr (by rwa [Nat.mul_comm])
    rw [magnitude_units, Nat.mul_comm]
    exact Nat.mul_le_mul_right _ (hc.trans (le_roundHalfEven n _))
  by_cases hlead : 2 ^ n.log2 ≤ m
  · exact hmultiple m hm hlead h
  · rcases Nat.eq_zero_or_pos n with rfl | hn
    · omega
    · have hpow := hmultiple _ (significant_pow n.log2) le_rfl (Nat.log2_self_le (by omega))
      omega

theorem magnitude_le {m n : ℕ} (hm : Significant m) (h : n ≤ m) : magnitude n (2 ^ 1074) ≤ m := by
  rcases Nat.eq_zero_or_pos n with rfl | hn
  · rw [magnitude_units, show roundHalfEven 0 (ulp 0) = 0 by decide]
    omega
  · obtain ⟨c, rfl⟩ := ulp_dvd hm ((Nat.log2_self_le (by omega)).trans h)
    rw [magnitude_units, Nat.mul_comm (ulp n) c]
    refine Nat.mul_le_mul_right _ ?_
    rcases Nat.lt_or_ge (n / ulp n) c with hc | hc
    · exact (roundHalfEven_le n _).trans hc
    · -- the multiple is `n` itself
      have hback : c * ulp n ≤ n := (Nat.le_div_iff_mul_le (ulp_pos n)).mp hc
      have hn' : n = c * ulp n := Nat.le_antisymm (by rwa [Nat.mul_comm] at h) hback
      have hround := roundHalfEven_mul c (ulp n) (ulp_pos n)
      rw [← hn'] at hround
      exact hround.le

theorem magnitude_eq {m : ℕ} (hm : Significant m) : magnitude m (2 ^ 1074) = m :=
  Nat.le_antisymm (magnitude_le hm le_rfl) (le_magnitude hm le_rfl)

/-- Between a number and its double, differences keep to the format. -/
theorem Significant.sub {a b : ℕ} (ha : Significant a) (hb : Significant b) (hle : b ≤ a) (htwice : a ≤ 2 * b) :
    Significant (a - b) := by
  rcases Nat.eq_zero_or_pos b with rfl | hpos
  · exact ⟨0, 0, by omega, by omega⟩
  · have hlead : 2 ^ b.log2 ≤ b := Nat.log2_self_le (by omega)
    obtain ⟨c, hc⟩ := Nat.dvd_sub (ulp_dvd ha (hlead.trans hle)) (ulp_dvd hb hlead)
    refine ⟨c, b.log2 + 1 - 53, ?_, by rw [hc, Nat.mul_comm]; rfl⟩
    have hb : b < 2 ^ (b.log2 + 1) := Nat.lt_log2_self
    have hmul : c * ulp b < 2 ^ 53 * ulp b := by
      rw [Nat.mul_comm, ← hc, ulp, ← Nat.pow_add]
      have hpow : 2 ^ (b.log2 + 1) ≤ 2 ^ (53 + (b.log2 + 1 - 53)) := Nat.pow_le_pow_right (by omega) (by omega)
      omega
    exact Nat.lt_of_mul_lt_mul_right hmul

/-! ### Comparisons with a rounded value -/

/-- The value nearest to one with any number of bits. -/
def rounded (value : ℤ) : ℤ := units (value < 0) (magnitude value.natAbs (2 ^ 1074))

theorem le_rounded {s : Bool} {m : ℕ} {value : ℤ} (hm : Significant m) (h : units s m ≤ value) :
    units s m ≤ rounded value := by
  by_cases hneg : value < 0
  · have hs : s = true := by
      cases s with
      | true => rfl
      | false =>
        simp only [units, Bool.false_eq_true, if_false] at h
        omega
    subst hs
    have hle : value.natAbs ≤ m := by
      simp only [units, if_true] at h
      omega
    have hmag := magnitude_le hm hle
    simp only [rounded, units, hneg, decide_true, if_true]
    omega
  · cases s with
    | true =>
      simp only [rounded, units, hneg, decide_false, if_true, Bool.false_eq_true, if_false]
      omega
    | false =>
      have hle : m ≤ value.natAbs := by
        simp only [units, Bool.false_eq_true, if_false] at h
        omega
      have hmag := le_magnitude hm hle
      simp only [rounded, units, hneg, decide_false, Bool.false_eq_true, if_false]
      omega

theorem rounded_le {s : Bool} {m : ℕ} {value : ℤ} (hm : Significant m) (h : value ≤ units s m) :
    rounded value ≤ units s m := by
  by_cases hneg : value < 0
  · cases s with
    | true =>
      have hle : m ≤ value.natAbs := by
        simp only [units, if_true] at h
        omega
      have hmag := le_magnitude hm hle
      simp only [rounded, units, hneg, decide_true, if_true]
      omega
    | false =>
      simp only [rounded, units, hneg, decide_true, if_true, Bool.false_eq_true, if_false]
      omega
  · have hle : value.natAbs ≤ m := by
      cases s <;> simp [units] at h <;> omega
    have hmag := magnitude_le hm hle
    cases s with
    | true =>
      have hzero : m = 0 := by
        simp only [units, if_true] at h
        omega
      simp only [rounded, units, hneg, decide_false, if_true, Bool.false_eq_true, if_false]
      omega
    | false =>
      simp only [rounded, units, hneg, decide_false, Bool.false_eq_true, if_false]
      omega

/-- A number of the format that is not above a value is not above the rounded one. -/
theorem lt_round_left {s : Bool} {m : ℕ} {value : ℤ} (hr : Valid (.finite s m)) (h : units s m ≤ value) :
    lt (round value) (.finite s m) = false := by
  obtain ⟨hm, hbound⟩ := hr
  unfold round nearest
  split
  · exact decide_eq_false (not_lt.mpr (le_rounded hm h))
  · rename_i hover
    -- only a value above the number overflows
    refine decide_eq_false fun hneg => hover (lt_of_le_of_lt ?_ hbound)
    refine magnitude_le hm ?_
    cases s <;> simp only [units, if_true, Bool.false_eq_true, if_false] at h <;> omega

theorem lt_round_right {s : Bool} {m : ℕ} {value : ℤ} (hr : Valid (.finite s m)) (h : value ≤ units s m) :
    lt (.finite s m) (round value) = false := by
  obtain ⟨hm, hbound⟩ := hr
  unfold round nearest
  split
  · exact decide_eq_false (not_lt.mpr (rounded_le hm h))
  · rename_i hover
    simp only [lt, Bool.not_eq_false', decide_eq_true_eq]
    by_contra hneg
    refine hover (lt_of_le_of_lt (magnitude_le hm ?_) hbound)
    cases s <;> simp only [units, if_true, Bool.false_eq_true, if_false] at h <;> omega

/-- A value of the format is not rounded. -/
theorem round_eq {value : ℤ} (hv : Significant value.natAbs) (hbound : value.natAbs < 2 ^ (1024 + 1074)) :
    round value = .finite (value < 0) value.natAbs := by
  unfold round nearest
  rw [magnitude_eq hv, if_pos hbound]

theorem units_natAbs (value : ℤ) : units (value < 0) value.natAbs = value := by
  by_cases h : value < 0 <;>
    simp only [units, h, decide_true, decide_false, if_true, Bool.false_eq_true, if_false] <;> omega

/-! ### Subtraction -/

/-- The difference of two numbers is their rounded difference, up to the sign of a zero. -/
theorem sub_cases (s s' : Bool) (m m' : ℕ) :
    (units s m - units s' m' = 0 ∧ ∃ t, sub (.finite s m) (.finite s' m') = .finite t 0) ∨
      sub (.finite s m) (.finite s' m') = round (units s m - units s' m') := by
  rw [sub]
  split
  · rename_i h
    obtain ⟨rfl, rfl⟩ := h
    exact .inl ⟨by simp [units], _, rfl⟩
  · exact .inr rfl

theorem lt_sub_left {s s₁ s₂ : Bool} {m m₁ m₂ : ℕ} (hr : Valid (.finite s m))
    (h : units s m ≤ units s₁ m₁ - units s₂ m₂) :
    lt (sub (.finite s₁ m₁) (.finite s₂ m₂)) (.finite s m) = false := by
  rcases sub_cases s₁ s₂ m₁ m₂ with ⟨hzero, t, hsub⟩ | hsub
  · rw [hsub]
    refine decide_eq_false ?_
    rw [hzero] at h
    cases t <;> simpa [units] using h
  · rw [hsub]
    exact lt_round_left hr h

theorem lt_sub_right {s s₁ s₂ : Bool} {m m₁ m₂ : ℕ} (hr : Valid (.finite s m))
    (h : units s₁ m₁ - units s₂ m₂ ≤ units s m) :
    lt (.finite s m) (sub (.finite s₁ m₁) (.finite s₂ m₂)) = false := by
  rcases sub_cases s₁ s₂ m₁ m₂ with ⟨hzero, t, hsub⟩ | hsub
  · rw [hsub]
    refine decide_eq_false ?_
    rw [hzero] at h
    cases t <;> simpa [units] using h
  · rw [hsub]
    exact lt_round_right hr h

theorem sub_ne_nan (s s' : Bool) (m m' : ℕ) : sub (.finite s m) (.finite s' m') ≠ .nan := by
  rcases sub_cases s s' m m' with ⟨-, t, hsub⟩ | hsub
  · rw [hsub]
    exact Float64.noConfusion
  · rw [hsub, round, nearest]
    split <;> exact Float64.noConfusion

/-- A difference that is less than what was subtracted is exact. -/
theorem lt_sub_iff {s s₁ s₂ : Bool} {m m₁ m₂ : ℕ} (hr : Valid (.finite s m)) (h₁ : Valid (.finite s₁ m₁))
    (h₂ : Valid (.finite s₂ m₂)) (hlater : units s m < units s₂ m₂) (hle : units s₂ m₂ ≤ units s₁ m₁) :
    lt (sub (.finite s₁ m₁) (.finite s₂ m₂)) (.finite s m) = true ↔ units s₁ m₁ - units s₂ m₂ < units s m := by
  constructor
  · intro h
    by_contra hge
    rw [lt_sub_left hr (not_lt.mp hge)] at h
    cases h
  · intro h
    rcases sub_cases s₁ s₂ m₁ m₂ with ⟨hzero, t, hsub⟩ | hsub
    · rw [hsub]
      refine decide_eq_true ?_
      rw [hzero] at h
      cases t <;> simpa [units] using h
    · have hs₂ : s₂ = false := by
        cases s₂ with
        | false => rfl
        | true =>
          simp only [units, if_true] at hlater hle h
          omega
      have hs₁ : s₁ = false := by
        cases s₁ with
        | false => rfl
        | true =>
          simp only [units, hs₂, if_true, Bool.false_eq_true, if_false] at hlater hle h
          omega
      subst hs₁ hs₂
      simp only [units, Bool.false_eq_true, if_false] at hlater hle h hsub ⊢
      have hexact : ((m₁ : ℤ) - m₂).natAbs = m₁ - m₂ := by omega
      have hsig := h₁.1.sub h₂.1 (by omega) (by omega)
      rw [hsub, round_eq (by rwa [hexact]) (by rw [hexact]; exact lt_of_le_of_lt (Nat.sub_le _ _) h₁.2)]
      refine decide_eq_true ?_
      rw [units_natAbs]
      exact h

end Float64
