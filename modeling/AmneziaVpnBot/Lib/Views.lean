import AmneziaVpnBot.Lib.Table

/-! The rows of a table that satisfy a condition, each under its key. What is done to the other rows does not show. -/

namespace Table

variable {α : Type*} {t : Table α} {p : α → Bool}

/-- The row under a key, if it satisfies `p`. -/
def view (t : Table α) (p : α → Bool) (i : ℕ) : Option α := (t[i]?).filter p

/-- A row is hidden before and after its update. -/
theorem view_update {i : ℕ} {f : α → α} (h : ∀ a, t[i]? = some a → p a = false ∧ p (f a) = false) :
    (t.update i f).view p = t.view p := by
  funext j
  unfold view
  rw [get_update]
  split_ifs with hij
  · subst hij
    cases hrow : t[i]? with
    | none => rfl
    | some a =>
      obtain ⟨hbefore, hafter⟩ := h a hrow
      rw [Option.map_some, Option.filter_some, Option.filter_some, hbefore, hafter]
      rfl
  · rfl

/-- A hidden row comes in. -/
theorem view_insert {a : α} (h : p a = false) : (t.insert a).view p = t.view p := by
  funext i
  unfold view
  rw [get_insert]
  split_ifs with hi
  · rw [hi, get_fresh]
    simp [h]
  · rfl

end Table
