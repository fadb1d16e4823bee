import Mathlib.Data.List.Basic

/-! Runs of a machine whose steps are chosen from outside. A step is a label
together with a partial function on states, `none` when the label is not enabled.
Facts about every run come from facts about one step by the invariant rules; a
guard on the steps of a run, and the events the steps emit, are read along the
same states. -/

namespace Machine

variable {σ α ε : Type*}

/-- The state in which the listed steps end, when each is enabled in its turn. -/
def run (step : σ → α → Option σ) : σ → List α → Option σ
  | s, [] => some s
  | s, a :: as => (step s a).bind fun t => run step t as

/-- Every step of the run meets `G`, which sees the state before it. -/
def Along (step : σ → α → Option σ) (G : σ → α → Prop) : σ → List α → Prop
  | _, [] => True
  | s, a :: as => G s a ∧ ∀ t, step s a = some t → Along step G t as

/-- The events emitted by the steps of the run, in order. -/
def log (step : σ → α → Option σ) (emit : σ → α → List ε) : σ → List α → List ε
  | _, [] => []
  | s, a :: as => (step s a).elim [] fun t => emit s a ++ log step emit t as

variable {step : σ → α → Option σ} {emit : σ → α → List ε} {G : σ → α → Prop}

@[simp] theorem run_nil (s : σ) : run step s [] = some s := rfl

@[simp] theorem run_cons (s : σ) (a : α) (as : List α) :
    run step s (a :: as) = (step s a).bind fun t => run step t as := rfl

theorem run_cons_eq_some {s u : σ} {a : α} {as : List α} :
    run step s (a :: as) = some u ↔ ∃ t, step s a = some t ∧ run step t as = some u :=
  Option.bind_eq_some_iff

theorem run_append (s : σ) (as bs : List α) :
    run step s (as ++ bs) = (run step s as).bind fun t => run step t bs := by
  induction as generalizing s with
  | nil => rfl
  | cons a as ih => simp only [List.cons_append, run_cons, Option.bind_assoc, ih]

@[simp] theorem along_nil (s : σ) : Along step G s [] := trivial

theorem along_cons {s t : σ} {a : α} {as : List α} (h : step s a = some t) :
    Along step G s (a :: as) ↔ G s a ∧ Along step G t as := by
  simp [Along, h]

@[simp] theorem log_nil (s : σ) : log step emit s [] = [] := rfl

theorem log_of_none {s : σ} {a : α} {as : List α} (h : step s a = none) :
    log step emit s (a :: as) = [] := by
  simp [log, h]

theorem log_cons {s t : σ} {a : α} {as : List α} (h : step s a = some t) :
    log step emit s (a :: as) = emit s a ++ log step emit t as := by
  simp [log, h]

theorem log_append {s t : σ} {as bs : List α} (h : run step s as = some t) :
    log step emit s (as ++ bs) = log step emit s as ++ log step emit t bs := by
  induction as generalizing s with
  | nil => cases h; rfl
  | cons a as ih =>
    obtain ⟨u, hu, h⟩ := run_cons_eq_some.mp h
    rw [List.cons_append, log_cons hu, log_cons hu, ih h, List.append_assoc]

theorem along_append {s t : σ} {as bs : List α} (h : run step s as = some t) :
    Along step G s (as ++ bs) ↔ Along step G s as ∧ Along step G t bs := by
  induction as generalizing s with
  | nil => cases h; simp
  | cons a as ih =>
    obtain ⟨u, hu, h⟩ := run_cons_eq_some.mp h
    rw [List.cons_append, along_cons hu, along_cons hu, ih h, and_assoc]

/-- A guard that can be checked at each step can be checked along a run. -/
instance decidableAlong [∀ s a, Decidable (G s a)] : ∀ (s : σ) (as : List α), Decidable (Along step G s as)
  | _, [] => isTrue trivial
  | s, a :: as => match h : step s a with
    | none => decidable_of_iff (G s a) (by simp [Along, h])
    | some t =>
      have := decidableAlong t as
      decidable_of_iff (G s a ∧ Along step G t as) (along_cons h).symm

/-- A check of the state in which a run ends. -/
theorem exists_of_any {as : List α} {s : σ} {p : σ → Bool} (h : (run step s as).any p = true) :
    ∃ t, run step s as = some t ∧ p t = true := by
  simpa [Option.any_eq_true] using h

/-- Along a run the guard holds at every step that is reached. -/
theorem along_iff {as : List α} {s : σ} :
    Along step G s as ↔
      ∀ (bs cs : List α) (a : α) (t : σ), as = bs ++ a :: cs → run step s bs = some t → G t a := by
  constructor
  · rintro hg bs cs a t rfl hrun
    exact ((along_append hrun).mp hg).2.1
  · intro h
    induction as generalizing s with
    | nil => trivial
    | cons a as ih =>
      refine ⟨h [] as a s rfl rfl, fun t ht => ih fun bs cs b u hsplit hrun => ?_⟩
      exact h (a :: bs) cs b u (by rw [hsplit]; rfl) (by simp [ht, hrun])

/-- What every guarded step preserves, every guarded run preserves. -/
theorem invariant_along {I : σ → Prop}
    (hstep : ∀ s a t, I s → G s a → step s a = some t → I t) :
    ∀ {as : List α} {s u : σ}, Along step G s as → run step s as = some u → I s → I u
  | [], s, u, _, h, hs => by cases h; exact hs
  | a :: as, s, u, hg, h, hs => by
    obtain ⟨t, ht, h⟩ := run_cons_eq_some.mp h
    rw [along_cons ht] at hg
    exact invariant_along hstep hg.2 h (hstep s a t hs hg.1 ht)

theorem along_true (s : σ) (as : List α) : Along step (fun _ _ => True) s as := by
  induction as generalizing s with
  | nil => trivial
  | cons a as ih => exact ⟨trivial, fun t _ => ih t⟩

theorem along_mp {H : σ → α → Prop} {as : List α} {s : σ} (h : Along step (fun s a => G s a → H s a) s as)
    (hg : Along step G s as) : Along step H s as := by
  induction as generalizing s with
  | nil => trivial
  | cons a as ih => exact ⟨h.1 hg.1, fun t ht => ih (h.2 t ht) (hg.2 t ht)⟩

/-- A machine that carries more along takes the same steps. -/
theorem along_map {τ : Type*} {step' : τ → α → Option τ} {f : τ → σ} (hf : ∀ x a, (step' x a).map f = step (f x) a) :
    ∀ {as : List α} {x : τ}, Along step' (fun x a => G (f x) a) x as ↔ Along step G (f x) as
  | [], _ => Iff.rfl
  | a :: as, x => by
    refine and_congr Iff.rfl ⟨fun h t ht => ?_, fun h y hy => ?_⟩
    · rw [← hf x a] at ht
      obtain ⟨y, hy, rfl⟩ := Option.map_eq_some_iff.mp ht
      exact (along_map hf).mp (h y hy)
    · exact (along_map hf).mpr (h (f y) (by rw [← hf x a, hy]; rfl))

/-- Under an invariant that the guarded steps keep, a guarded run meets at every step
what the guard and the invariant imply there. -/
theorem along_of_invariant {I : σ → Prop} {H : σ → α → Prop}
    (hstep : ∀ s a t, I s → G s a → step s a = some t → I t) (hH : ∀ s a, I s → G s a → H s a) :
    ∀ {as : List α} {s : σ}, Along step G s as → I s → Along step H s as
  | [], _, _, _ => trivial
  | _ :: _, s, hg, hs => ⟨hH s _ hs hg.1, fun t ht =>
      along_of_invariant hstep hH (hg.2 t ht) (hstep s _ t hs hg.1 ht)⟩

/-- Where two conditions on a step agree under an invariant, and one of them keeps it, they
agree on whole runs. -/
theorem along_congr {I : σ → Prop} {P Q : σ → α → Prop} (hPQ : ∀ s a, I s → G s a → (P s a ↔ Q s a))
    (hstep : ∀ s a t, I s → G s a → Q s a → step s a = some t → I t) :
    ∀ {as : List α} {s : σ}, Along step G s as → I s → (Along step P s as ↔ Along step Q s as)
  | [], _, _, _ => Iff.rfl
  | a :: as, s, hg, hs => by
    constructor
    · rintro ⟨hp, hps⟩
      have hq := (hPQ s a hs hg.1).mp hp
      exact ⟨hq, fun t ht => (along_congr hPQ hstep (hg.2 t ht) (hstep s a t hs hg.1 hq ht)).mp (hps t ht)⟩
    · rintro ⟨hq, hqs⟩
      refine ⟨(hPQ s a hs hg.1).mpr hq, fun t ht => ?_⟩
      exact (along_congr hPQ hstep (hg.2 t ht) (hstep s a t hs hg.1 hq ht)).mpr (hqs t ht)

/-- An invariant that also sees the events emitted so far. -/
theorem invariant_log {I : σ → List ε → Prop}
    (hstep : ∀ s l a t, I s l → G s a → step s a = some t → I t (l ++ emit s a)) :
    ∀ {as : List α} {s u : σ} {l : List ε}, Along step G s as → run step s as = some u → I s l →
      I u (l ++ log step emit s as)
  | [], s, u, l, _, h, hs => by cases h; simpa using hs
  | a :: as, s, u, l, hg, h, hs => by
    obtain ⟨t, ht, h⟩ := run_cons_eq_some.mp h
    rw [along_cons ht] at hg
    rw [log_cons ht, ← List.append_assoc]
    exact invariant_log hstep hg.2 h (hstep s l a t hs hg.1 ht)

/-- A measure that each step raises by the number of events `e` it emits counts them
over a run. -/
theorem count_log [DecidableEq ε] {I : σ → Prop} {e : ε} {m : σ → ℕ}
    (hstep : ∀ s a t, I s → G s a → step s a = some t → I t ∧ m t = m s + (emit s a).count e)
    {as : List α} {s u : σ} (hg : Along step G s as) (h : run step s as = some u) (hs : I s) :
    I u ∧ m u = m s + (log step emit s as).count e := by
  have hstart : I s ∧ m s = m s + ([] : List ε).count e := ⟨hs, by simp⟩
  refine invariant_log (I := fun v l => I v ∧ m v = m s + l.count e) (fun v l a t hv hga ht => ?_) hg h hstart
  obtain ⟨hI, hm⟩ := hstep v a t hv.1 hga ht
  exact ⟨hI, by rw [hm, hv.2, List.count_append, Nat.add_assoc]⟩

/-- What every step preserves, every run preserves. -/
theorem invariant_run {I : σ → Prop} (hstep : ∀ s a t, I s → step s a = some t → I t)
    {as : List α} {s u : σ} (h : run step s as = some u) (hs : I s) : I u :=
  invariant_along (fun s a t hs _ ht => hstep s a t hs ht) (along_true s as) h hs

/-- What is not so at the start of a run and is so at its end comes about in one of its steps. -/
theorem appears {P : σ → Prop} {as : List α} {s t : σ} (h : run step s as = some t) (hs : ¬ P s) (ht : P t) :
    ∃ bs a cs u v, as = bs ++ a :: cs ∧ run step s bs = some u ∧ ¬ P u ∧ step u a = some v ∧ P v := by
  induction as generalizing s with
  | nil =>
    cases h
    exact absurd ht hs
  | cons a as ih =>
    obtain ⟨u, hu, hrest⟩ := run_cons_eq_some.mp h
    by_cases hp : P u
    · exact ⟨[], a, as, s, u, rfl, rfl, hs, hu, hp⟩
    · obtain ⟨bs, b, cs, v, w, rfl, hv, hnot, hw, hpw⟩ := ih hrest hp
      exact ⟨a :: bs, b, cs, v, w, rfl, run_cons_eq_some.mpr ⟨u, hu, hv⟩, hnot, hw, hpw⟩

/-- Under an invariant that the guarded steps keep, no step of a guarded run emits
an event that a guarded step from an invariant state never emits. -/
theorem not_mem_log {I : σ → Prop} {e : ε}
    (hstep : ∀ s a t, I s → G s a → step s a = some t → I t ∧ e ∉ emit s a) :
    ∀ {as : List α} {s u : σ}, Along step G s as → run step s as = some u → I s →
      e ∉ log step emit s as
  | [], s, _, _, _, _ => by simp
  | a :: as, s, u, hg, h, hs => by
    obtain ⟨t, ht, h⟩ := run_cons_eq_some.mp h
    rw [along_cons ht] at hg
    obtain ⟨hI, he⟩ := hstep s a t hs hg.1 ht
    rw [log_cons ht, List.mem_append, not_or]
    exact ⟨he, not_mem_log hstep hg.2 h hI⟩

end Machine
