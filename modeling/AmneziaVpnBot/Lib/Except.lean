import Mathlib.Data.Option.Basic

/-! Computations that return or raise. -/

namespace Except

universe u v

variable {ε : Type v} {α β : Type u}

theorem bind_eq_ok {c : Except ε α} {f : α → Except ε β} {b : β} :
    (c >>= f) = .ok b ↔ ∃ a, c = .ok a ∧ f a = .ok b := by
  cases c <;> simp [bind, Except.bind]

theorem isOk_iff {c : Except ε α} : c.isOk = true ↔ ∃ a, c = .ok a := by
  cases c <;> simp [isOk, Except.toBool]

theorem not_isOk_iff {c : Except ε α} : c.isOk = false ↔ ∃ err, c = .error err := by
  cases c <;> simp [isOk, Except.toBool]

theorem eq_ok_of_toOption {c : Except ε α} {a : α} (h : c.toOption = some a) : c = .ok a := by
  cases c with
  | ok b => exact congrArg _ (Option.some.inj h)
  | error err => cases h

end Except
