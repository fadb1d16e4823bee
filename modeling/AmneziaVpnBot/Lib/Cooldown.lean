import AmneziaVpnBot.Lib.Dict

/-! A table of the time at which each key last passed. A key that comes back too soon is refused, and an entry
so old that it can refuse no one may be dropped at any time. Dropping entries changes no verdict, and a key is
refused exactly when it has passed too recently. -/

namespace Cooldown

variable {κ τ : Type*} [DecidableEq κ]

structure Rule (τ : Type*) where
  /-- `soon now last` refuses. -/
  soon : τ → τ → Bool
  /-- `stale now last` lets an entry go. -/
  stale : τ → τ → Bool

/-- What the two tests owe each other, for the times that satisfy `T`. -/
structure Rule.Sound (r : Rule τ) (le : τ → τ → Prop) (T : τ → Prop) : Prop where
  not_soon_of_stale : ∀ {t p q}, T t → T p → T q → le p q → r.stale p t = true → r.soon q t = false
  soon_of_le : ∀ {t t' q}, T t → T t' → T q → le t t' → le t' q → r.soon q t = true → r.soon q t' = true

/-- The verdict on an event and the table after it. Where `prunes` says so, the stale entries go first; an
event without a key passes and leaves no trace. -/
def visit (r : Rule τ) (prunes : Dict κ τ → Bool) (d : Dict κ τ) (e : Option κ × τ) : Bool × Dict κ τ :=
  match e.1 with
  | none => (true, d)
  | some k =>
    if (d.get k).any (r.soon e.2) then (false, d)
    else (true, (if prunes d then d.filter fun x => !r.stale e.2 x.2 else d).set k e.2)

def verdicts (r : Rule τ) (prunes : Dict κ τ → Bool) : Dict κ τ → List (Option κ × τ) → List Bool
  | _, [] => []
  | d, e :: es => (visit r prunes d e).1 :: verdicts r prunes (visit r prunes d e).2 es

def never (_ : Dict κ τ) : Bool := false

variable {r : Rule τ} {prunes : Dict κ τ → Bool}

theorem visit_none (d : Dict κ τ) (t : τ) : visit r prunes d (none, t) = (true, d) := rfl

theorem visit_some (d : Dict κ τ) (k : κ) (t : τ) :
    visit r prunes d (some k, t) =
      if (d.get k).any (r.soon t) then (false, d)
      else (true, (if prunes d then d.filter fun x => !r.stale t x.2 else d).set k t) := rfl

theorem visit_never (d : Dict κ τ) (k : κ) (t : τ) :
    visit r never d (some k, t) = if (d.get k).any (r.soon t) then (false, d) else (true, d.set k t) := rfl

/-! ### Forgetting -/

/-- A table that has lost some of the entries of another, none of which refuses a later event. -/
def Forgot (r : Rule τ) (later : List (Option κ × τ)) (d full : Dict κ τ) : Prop :=
  ∀ k, d.get k = full.get k ∨ d.get k = none ∧ ∀ t, full.get k = some t → ∀ e ∈ later, r.soon e.2 t = false

theorem Forgot.any {later : List (Option κ × τ)} {d full : Dict κ τ} (h : Forgot r later d full) {e : Option κ × τ}
    (he : e ∈ later) (k : κ) : (d.get k).any (r.soon e.2) = (full.get k).any (r.soon e.2) := by
  rcases h k with hk | ⟨hnone, hfull⟩
  · rw [hk]
  · rw [hnone]
    cases ht : full.get k with
    | none => rfl
    | some t => exact (hfull t ht e he).symm

theorem Forgot.mono {e : Option κ × τ} {later : List (Option κ × τ)} {d full : Dict κ τ}
    (h : Forgot r (e :: later) d full) : Forgot r later d full := by
  intro k
  refine (h k).imp_right fun hk => ⟨hk.1, fun t ht e' he' => ?_⟩
  exact hk.2 t ht e' (List.mem_cons_of_mem _ he')

/-- An entry that is dropped refuses no later event. -/
theorem Forgot.filter {le : τ → τ → Prop} {T : τ → Prop} (hr : r.Sound le T) {now : τ} {later : List (Option κ × τ)}
    {d full : Dict κ τ} (h : Forgot r later d full) (hnow : T now) (hfull : ∀ k t, full.get k = some t → T t)
    (hlater : ∀ e ∈ later, T e.2 ∧ le now e.2) : Forgot r later (d.filter fun x => !r.stale now x.2) full := by
  intro k
  rw [Dict.get_filter]
  rcases h k with hk | ⟨hnone, hgone⟩
  · rw [hk]
    cases ht : full.get k with
    | none => exact .inl rfl
    | some t =>
      cases hstale : r.stale now t with
      | false => exact .inl (by simp [hstale])
      | true =>
        refine .inr ⟨by simp [hstale], ?_⟩
        rintro _ ⟨⟩ e he
        exact hr.not_soon_of_stale (hfull k t ht) hnow (hlater e he).1 (hlater e he).2 hstale
  · exact .inr ⟨by rw [hnone]; rfl, hgone⟩

theorem Forgot.set {later : List (Option κ × τ)} {d full : Dict κ τ} (h : Forgot r later d full) (k : κ) (t : τ) :
    Forgot r later (d.set k t) (full.set k t) := by
  intro k'
  rw [Dict.get_set, Dict.get_set]
  split
  · exact .inl rfl
  · exact h k'

/-- Each event is judged alike, and no more is lost than may be. -/
theorem Forgot.step {le : τ → τ → Prop} {T : τ → Prop} (hr : r.Sound le T) {e : Option κ × τ}
    {later : List (Option κ × τ)} {d full : Dict κ τ} (h : Forgot r (e :: later) d full) (he : T e.2)
    (hfull : ∀ k t, full.get k = some t → T t) (hlater : ∀ e' ∈ later, T e'.2 ∧ le e.2 e'.2) :
    (visit r prunes d e).1 = (visit r never full e).1 ∧
      Forgot r later (visit r prunes d e).2 (visit r never full e).2 := by
  obtain ⟨key, t⟩ := e
  cases key with
  | none => exact ⟨rfl, h.mono⟩
  | some k =>
    have hany := h.any List.mem_cons_self k
    rw [visit_some, visit_never, hany]
    split
    · exact ⟨rfl, h.mono⟩
    · refine ⟨rfl, Forgot.set ?_ _ _⟩
      split
      · exact h.mono.filter hr he hfull hlater
      · exact h.mono

theorem get_visit_sound {T : τ → Prop} {d : Dict κ τ} {e : Option κ × τ} (he : T e.2)
    (hd : ∀ k t, d.get k = some t → T t) : ∀ k t, (visit r never d e).2.get k = some t → T t := by
  obtain ⟨key, now⟩ := e
  cases key with
  | none => exact hd
  | some key =>
    intro k t ht
    rw [visit_never] at ht
    split at ht
    · exact hd k t ht
    · rw [Dict.get_set] at ht
      split at ht
      · cases ht
        exact he
      · exact hd k t ht

/-- Whatever is dropped and whenever, the verdicts are those of a table that drops nothing. -/
theorem verdicts_eq {le : τ → τ → Prop} {T : τ → Prop} (hr : r.Sound le T) {es : List (Option κ × τ)}
    {d full : Dict κ τ} (h : Forgot r es d full) (hfull : ∀ k t, full.get k = some t → T t) (hes : ∀ e ∈ es, T e.2)
    (hsorted : es.Pairwise fun e e' => le e.2 e'.2) : verdicts r prunes d es = verdicts r never full es := by
  induction es generalizing d full with
  | nil => rfl
  | cons e es ih =>
    obtain ⟨he, hes⟩ := List.forall_mem_cons.mp hes
    obtain ⟨hhead, hsorted⟩ := List.pairwise_cons.mp hsorted
    have hstep : (visit r prunes d e).1 = (visit r never full e).1 ∧ _ :=
      h.step hr he hfull fun e' he' => ⟨hes e' he', hhead e' he'⟩
    rw [verdicts, verdicts, hstep.1, ih hstep.2 (get_visit_sound he hfull) hes hsorted]

/-! ### Who is refused -/

/-- One of these events of the key refuses it. -/
def Recent (r : Rule τ) (passed : List (Option κ × τ)) (k : κ) (now : τ) : Prop :=
  ∃ t, (some k, t) ∈ passed ∧ r.soon now t = true

/-- The table refuses the events to come as the passed ones do. -/
def Records (r : Rule τ) (later : List (Option κ × τ)) (d : Dict κ τ) (passed : List (Option κ × τ)) : Prop :=
  ∀ k now, (some k, now) ∈ later → ((d.get k).any (r.soon now) = true ↔ Recent r passed k now)

theorem visit_never_fst (d : Dict κ τ) (k : κ) (now : τ) :
    (visit r never d (some k, now)).1 = true ↔ ¬ (d.get k).any (r.soon now) = true := by
  rw [visit_never]
  split
  · rename_i h
    simpa using h
  · rename_i h
    simpa using h

omit [DecidableEq κ] in
theorem recent_cons {a : Option κ × τ} {passed : List (Option κ × τ)} {k : κ} {now : τ} :
    Recent r (a :: passed) k now ↔ (a.1 = some k ∧ r.soon now a.2 = true) ∨ Recent r passed k now := by
  constructor
  · rintro ⟨t, ht, hsoon⟩
    rcases List.mem_cons.mp ht with rfl | ht
    · exact .inl ⟨rfl, hsoon⟩
    · exact .inr ⟨t, ht, hsoon⟩
  · rintro (⟨hkey, hsoon⟩ | ⟨t, ht, hsoon⟩)
    · exact ⟨a.2, List.mem_cons.mpr (.inl (Prod.ext hkey.symm rfl)), hsoon⟩
    · exact ⟨t, List.mem_cons_of_mem _ ht, hsoon⟩

/-- The passed events after one more. -/
def passedBy (r : Rule τ) (d : Dict κ τ) (e : Option κ × τ) (passed : List (Option κ × τ)) : List (Option κ × τ) :=
  if (visit r never d e).1 then e :: passed else passed

theorem Records.step {le : τ → τ → Prop} {T : τ → Prop} (hr : r.Sound le T) {e : Option κ × τ}
    {later passed : List (Option κ × τ)} {d : Dict κ τ} (h : Records r (e :: later) d passed) (he : T e.2)
    (hpassed : ∀ x ∈ passed, T x.2 ∧ le x.2 e.2) (hlater : ∀ x ∈ later, T x.2 ∧ le e.2 x.2) :
    Records r later (visit r never d e).2 (passedBy r d e passed) := by
  intro k now hx
  have hbefore := h k now (List.mem_cons_of_mem _ hx)
  obtain ⟨key, t⟩ := e
  cases key with
  | none =>
    rw [passedBy, visit_none, if_pos rfl, recent_cons, ← hbefore]
    simp
  | some key =>
    rw [passedBy, visit_never]
    split
    · exact hbefore
    · rw [if_pos rfl, recent_cons, Dict.get_set, Option.some.injEq]
      by_cases hkey : k = key
      · subst hkey
        rw [if_pos rfl, Option.any_some]
        refine ⟨fun hsoon => .inl ⟨rfl, hsoon⟩, ?_⟩
        rintro (⟨-, hsoon⟩ | ⟨t', ht', hsoon⟩)
        · exact hsoon
        · -- what passed before refuses less than this event does
          exact hr.soon_of_le (hpassed _ ht').1 he (hlater _ hx).1 (hpassed _ ht').2 (hlater _ hx).2 hsoon
      · rw [if_neg hkey, hbefore]
        exact (or_iff_right fun hsame => hkey hsame.1.symm).symm

/-- A key passes if and only if none of its events has passed too recently. -/
theorem verdicts_iff {le : τ → τ → Prop} {T : τ → Prop} (hr : r.Sound le T) {es passed : List (Option κ × τ)}
    {d : Dict κ τ} (h : Records r es d passed) (hes : ∀ e ∈ es, T e.2) (hsorted : es.Pairwise fun e e' => le e.2 e'.2)
    (hpassed : ∀ x ∈ passed, T x.2 ∧ ∀ e ∈ es, le x.2 e.2) {i : ℕ} {k : κ} {now : τ}
    (hi : es[i]? = some (some k, now)) :
    (verdicts r never d es)[i]? = some true ↔
      ¬ Recent r passed k now ∧ ∀ j t, j < i → es[j]? = some (some k, t) → (verdicts r never d es)[j]? = some true →
        r.soon now t = false := by
  induction es generalizing d passed i with
  | nil => simp at hi
  | cons a es ih =>
    obtain ⟨ha, hes⟩ := List.forall_mem_cons.mp hes
    obtain ⟨hhead, hsorted⟩ := List.pairwise_cons.mp hsorted
    have hpast : ∀ x ∈ passed, T x.2 ∧ le x.2 a.2 :=
      fun x hx => ⟨(hpassed x hx).1, (hpassed x hx).2 a List.mem_cons_self⟩
    have hcoming : ∀ x ∈ es, T x.2 ∧ le a.2 x.2 := fun x hx => ⟨hes x hx, hhead x hx⟩
    cases i with
    | zero =>
      obtain rfl : a = (some k, now) := by simpa using hi
      rw [verdicts, List.getElem?_cons_zero, Option.some.injEq, visit_never_fst, h k now List.mem_cons_self]
      exact (and_iff_left fun j t hj => absurd hj (Nat.not_lt_zero j)).symm
    | succ i =>
      rw [List.getElem?_cons_succ] at hi
      have hlater : ∀ x ∈ passedBy r d a passed, T x.2 ∧ ∀ e ∈ es, le x.2 e.2 := by
        intro x hx
        unfold passedBy at hx
        have hold : x ∈ passed → T x.2 ∧ ∀ e ∈ es, le x.2 e.2 := fun hx =>
          ⟨(hpassed x hx).1, fun e he => (hpassed x hx).2 e (List.mem_cons_of_mem _ he)⟩
        split at hx
        · rcases List.mem_cons.mp hx with rfl | hx
          · exact ⟨ha, hhead⟩
          · exact hold hx
        · exact hold hx
      have hrecent : Recent r (passedBy r d a passed) k now ↔
          ((visit r never d a).1 = true ∧ a.1 = some k ∧ r.soon now a.2 = true) ∨ Recent r passed k now := by
        unfold passedBy
        split
        · rename_i hpass
          rw [recent_cons, and_iff_right hpass]
        · rename_i hpass
          exact (or_iff_right fun hsame => hpass hsame.1).symm
      rw [verdicts, List.getElem?_cons_succ, ih (h.step hr ha hpast hcoming) hes hsorted hlater hi, hrecent, not_or,
        and_assoc, and_comm, and_assoc]
      refine and_congr Iff.rfl ⟨fun hearlier j t hj ht hpass => ?_, fun hearlier => ⟨fun j t hj ht hpass => ?_, ?_⟩⟩
      · cases j with
        | zero =>
          obtain rfl : a = (some k, t) := by simpa using ht
          rw [List.getElem?_cons_zero, Option.some.injEq] at hpass
          by_contra hsoon
          exact hearlier.2 ⟨hpass, rfl, by simpa using hsoon⟩
        | succ j =>
          rw [List.getElem?_cons_succ] at ht hpass
          exact hearlier.1 j t (by omega) ht hpass
      · exact hearlier (j + 1) t (by omega) (by rwa [List.getElem?_cons_succ]) (by rwa [List.getElem?_cons_succ])
      · rintro ⟨hpass, hkey, hsoon⟩
        have hnot :=
          hearlier 0 a.2 (by omega) (by rw [List.getElem?_cons_zero, ← hkey]) (by rw [List.getElem?_cons_zero, hpass])
        rw [hsoon] at hnot
        cases hnot

end Cooldown
