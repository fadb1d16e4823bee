import AmneziaVpnBot.Lib.Text
import Mathlib.Data.List.Infix

/-! Cutting a text at a separator, as `str.split` does: from the left, without overlaps, and
at most a given number of times. The first piece is the whole text exactly when the separator
is not in it, and joining two texts with a separator that the first does not meet is undone
by one cut. -/

namespace Text

/-- The pieces of a text of which `skip` characters still belong to the last separator; `cuts` more
cuts may be made. -/
def splitFrom (sep : Text) : (cuts skip : ℕ) → Text → List Text
  | _, _, [] => [[]]
  | cuts, skip + 1, _ :: cs => splitFrom sep cuts skip cs
  | cuts, 0, c :: cs =>
    if cuts ≠ 0 ∧ sep <+: c :: cs then [] :: splitFrom sep (cuts - 1) (sep.length - 1) cs
    else consFirst c (splitFrom sep cuts 0 cs)

/-- `t.split(sep, cuts)` -/
def splitMax (sep : Text) (cuts : ℕ) (t : Text) : List Text := splitFrom sep cuts 0 t

/-- `t.split(sep)`; a text is not cut more often than it has characters. -/
def split (sep t : Text) : List Text := splitMax sep t.length t

variable {sep : Text}

theorem splitFrom_skip (cuts : ℕ) (u t : Text) : splitFrom sep cuts u.length (u ++ t) = splitFrom sep cuts 0 t := by
  induction u with
  | nil => rfl
  | cons c cs ih => simpa [splitFrom] using ih

/-- A text that starts with the separator is cut there. -/
theorem splitFrom_sep (hsep : sep ≠ []) (cuts : ℕ) (t : Text) :
    splitFrom sep (cuts + 1) 0 (sep ++ t) = [] :: splitFrom sep cuts 0 t := by
  obtain ⟨s, ss, rfl⟩ := List.exists_cons_of_ne_nil hsep
  have hprefix : s :: ss <+: s :: (ss ++ t) := List.prefix_append (s :: ss) t
  rw [List.cons_append, splitFrom, if_pos ⟨Nat.succ_ne_zero _, hprefix⟩]
  exact congrArg _ (splitFrom_skip cuts ss t)

theorem splitFrom_ne_nil (cuts skip : ℕ) (t : Text) : splitFrom sep cuts skip t ≠ [] := by
  induction t generalizing cuts skip with
  | nil => simp [splitFrom]
  | cons c cs ih =>
    cases skip with
    | succ skip => exact ih cuts skip
    | zero =>
      rw [splitFrom]
      split_ifs
      · exact List.cons_ne_nil _ _
      · exact consFirst_ne_nil _ _

/-- The first piece is the whole text exactly when the separator is nowhere in it. -/
theorem head_splitFrom (hsep : sep ≠ []) (cuts : ℕ) (t : Text) :
    (splitFrom sep (cuts + 1) 0 t).head? = some t ↔ ¬ sep <:+: t := by
  induction t with
  | nil => simp [splitFrom, hsep]
  | cons c cs ih =>
    obtain ⟨p, ps, hp⟩ := List.exists_cons_of_ne_nil (splitFrom_ne_nil (cuts + 1) 0 cs)
    rw [hp, List.head?_cons, Option.some.injEq] at ih
    rw [splitFrom, List.infix_cons_iff, not_or]
    by_cases h : sep <+: c :: cs
    · simp [h]
    · simp [h, hp, consFirst, ih]

/-- Without a cut left the rest is one piece. -/
theorem splitFrom_zero (t : Text) : splitFrom sep 0 0 t = [t] := by
  induction t with
  | nil => rfl
  | cons c cs ih =>
    rw [splitFrom, if_neg fun h => h.1 rfl, ih]
    rfl

section Char

variable {s : Char}

theorem singleton_infix {t : Text} : [s] <:+: t ↔ s ∈ t := by
  rw [List.infix_iff_prefix_suffix]
  constructor
  · rintro ⟨u, ⟨v, rfl⟩, hu⟩
    exact hu.subset (by simp)
  · intro h
    obtain ⟨u, v, rfl⟩ := List.append_of_mem h
    exact ⟨s :: v, ⟨v, rfl⟩, ⟨u, rfl⟩⟩

/-- What comes before the first separator is the first piece. -/
theorem splitFrom_join {u : Text} (h : s ∉ u) (cuts : ℕ) (t : Text) :
    splitFrom [s] (cuts + 1) 0 (u ++ s :: t) = u :: splitFrom [s] cuts 0 t := by
  induction u with
  | nil => exact splitFrom_sep (by simp) cuts t
  | cons c cs ih =>
    rw [List.mem_cons, not_or] at h
    rw [List.cons_append, splitFrom, if_neg (by simp [h.1]), ih h.2]
    rfl

/-- The separator itself is in no piece but the last. -/
theorem not_mem_head_splitFrom {cuts : ℕ} {t p : Text} (h : (splitFrom [s] (cuts + 1) 0 t).head? = some p) : s ∉ p := by
  induction t generalizing p with
  | nil =>
    obtain rfl : [] = p := by simpa [splitFrom] using h
    exact List.not_mem_nil
  | cons c cs ih =>
    rw [splitFrom] at h
    split_ifs at h with hc
    · obtain rfl : [] = p := by simpa using h
      exact List.not_mem_nil
    · obtain ⟨q, qs, hq⟩ := List.exists_cons_of_ne_nil (splitFrom_ne_nil (cuts + 1) 0 cs)
      rw [hq] at h ih
      obtain rfl : c :: q = p := by simpa [consFirst] using h
      simp only [List.singleton_prefix_cons_iff] at hc
      rw [List.mem_cons, not_or]
      exact ⟨fun he => hc ⟨Nat.succ_ne_zero _, he⟩, ih rfl⟩

end Char

end Text
