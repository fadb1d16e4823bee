import AmneziaVpnBot.Lib.Machine

/-! One machine matched by another. A step of the first is matched by any number of steps of the second; the relation
between their states is carried from the end of a run to its start, so it may speak of what only the end shows. -/

namespace Machine

variable {σ τ α β : Type*} {step : σ → α → Option σ} {step' : τ → β → Option τ} {I : σ → Prop} {R : σ → τ → Prop}
  {P : σ → α → β → Prop} {s t : σ} {t' : τ}

/-- A run is matched by a run whose steps come in as many blocks, and every step of a block is one that `P` allows the
block's step in the state it finds. -/
theorem matched_run {as : List α} (hkeep : ∀ s a t, I s → step s a = some t → I t)
    (hmatch : ∀ s a t t', I s → step s a = some t → R t t' →
      ∃ s' bs, R s s' ∧ run step' s' bs = some t' ∧ ∀ b ∈ bs, P s a b)
    (hs : I s) (hrun : run step s as = some t) (ht : R t t') :
    ∃ (s' : τ) (blocks : List (List β)), R s s' ∧ blocks.length = as.length ∧ run step' s' blocks.flatten = some t' ∧
      ∀ (i : ℕ) (u : σ) (a : α), run step s (as.take i) = some u → as[i]? = some a →
      ∀ b ∈ blocks[i]?.getD [], P u a b := by
  induction as generalizing s with
  | nil =>
    cases hrun
    exact ⟨t', [], ht, rfl, rfl, fun i u a _ ha => by simp at ha⟩
  | cons a as ih =>
    obtain ⟨u, hu, hrest⟩ := run_cons_eq_some.mp hrun
    obtain ⟨u', blocks, hu', hlength, hblocks, hall⟩ := ih (hkeep s a u hs hu) hrest
    obtain ⟨s', bs, hs', hbs, hb⟩ := hmatch s a u u' hs hu hu'
    refine ⟨s', bs :: blocks, hs', congrArg (· + 1) hlength, ?_, ?_⟩
    · rw [List.flatten_cons, run_append, hbs]
      exact hblocks
    · intro i v x hv hx b hmem
      cases i with
      | zero =>
        cases hv
        obtain rfl := Option.some.inj hx
        exact hb b hmem
      | succ i =>
        rw [List.take_succ_cons, run_cons, hu, Option.bind_some] at hv
        exact hall i v x hv hx b hmem

end Machine
