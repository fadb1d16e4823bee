import AmneziaVpnBot.Lib.Machine

/-! Steps that leave no trace. Of each state only a part is looked at. When quiet steps leave that part alone, and what
any other step makes of it does not depend on the rest, a run may as well be taken without its quiet steps. -/

namespace Machine

variable {σ ν α : Type*} {step : σ → α → Option σ} {I : σ → Prop} {G : α → Prop} {quiet : α → Bool} {seen : σ → ν}
  {s s' t : σ}

/-- The conditions on one step; the steps taken all meet `G`, and under it `I` is kept. -/
structure Unwinds (step : σ → α → Option σ) (I : σ → Prop) (G : α → Prop) (quiet : α → Bool) (seen : σ → ν) : Prop where
  keeps : ∀ s a t, I s → G a → step s a = some t → I t
  leaves : ∀ s a t, I s → quiet a = true → step s a = some t → seen t = seen s
  agrees : ∀ s s' a t, quiet a = false → seen s = seen s' → step s a = some t →
    ∃ t', step s' a = some t' ∧ seen t = seen t'

theorem Unwinds.run (h : Unwinds step I G quiet seen) {as : List α} (hs : I s) (has : ∀ a ∈ as, G a)
    (hseen : seen s = seen s') (hrun : run step s as = some t) :
    I t ∧ ∃ t', Machine.run step s' (as.filter fun a => !quiet a) = some t' ∧ seen t = seen t' := by
  induction as generalizing s s' with
  | nil =>
    cases hrun
    exact ⟨hs, s', rfl, hseen⟩
  | cons a as ih =>
    obtain ⟨u, hu, hrest⟩ := run_cons_eq_some.mp hrun
    have hI := h.keeps s a u hs (has a List.mem_cons_self) hu
    have htail : ∀ b ∈ as, G b := fun b hb => has b (List.mem_cons_of_mem a hb)
    cases hquiet : quiet a with
    | true =>
      rw [List.filter_cons_of_neg (by simp [hquiet])]
      exact ih hI htail ((h.leaves s a u hs hquiet hu).trans hseen) hrest
    | false =>
      obtain ⟨u', hu', hseen'⟩ := h.agrees s s' a u hquiet hseen hu
      rw [List.filter_cons_of_pos (by simp [hquiet]), run_cons, hu', Option.bind_some]
      exact ih hI htail hseen' hrest

end Machine
