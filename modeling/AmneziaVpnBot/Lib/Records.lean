import AmneziaVpnBot.Lib.Machine
import Mathlib.Logic.Function.Basic

/-! A store whose records are made once, shown any number of times and dropped. Where every step of a
machine visits the store so, what is shown under a key stays the same until the key is dropped. -/

namespace Records

variable {κ ν σ α : Type*}

/-- What a visit to the store comes to. -/
inductive Visit (κ ν : Type*)
  /-- The record was there, or was made, and was shown. -/
  | shown (key : κ) (value : ν)
  | dropped (key : κ)
  deriving DecidableEq

section

variable [DecidableEq κ]

def after (store : κ → Option ν) : List (Visit κ ν) → κ → Option ν
  | [] => store
  | .shown key value :: visits => after (Function.update store key (some value)) visits
  | .dropped key :: visits => after (Function.update store key none) visits

/-- A record that is shown is the one in the store, if there is one. -/
def Honest (store : κ → Option ν) : List (Visit κ ν) → Prop
  | [] => True
  | .shown key value :: visits =>
    (store key = none ∨ store key = some value) ∧ Honest (Function.update store key (some value)) visits
  | .dropped key :: visits => Honest (Function.update store key none) visits

/-- From one store to the next by honest visits. -/
structure Follows (store : κ → Option ν) (visits : List (Visit κ ν)) (store' : κ → Option ν) : Prop where
  honest : Honest store visits
  after : after store visits = store'

theorem Follows.refl (store : κ → Option ν) : Follows store [] store := ⟨trivial, rfl⟩

theorem Follows.shown {store : κ → Option ν} {key : κ} {value : ν} (h : store key = none ∨ store key = some value) :
    Follows store [.shown key value] (Function.update store key (some value)) := ⟨⟨h, trivial⟩, rfl⟩

theorem Follows.same {store : κ → Option ν} {key : κ} {value : ν} (h : store key = some value) :
    Follows store [.shown key value] store := by
  have hsame := Follows.shown (.inr h)
  rwa [← h, Function.update_eq_self] at hsame

theorem Follows.dropped (store : κ → Option ν) (key : κ) :
    Follows store [.dropped key] (Function.update store key none) := ⟨trivial, rfl⟩

theorem Follows.trans {store store' store'' : κ → Option ν} {visits visits' : List (Visit κ ν)}
    (h : Follows store visits store') (h' : Follows store' visits' store'') :
    Follows store (visits ++ visits') store'' := by
  induction visits generalizing store with
  | nil =>
    obtain rfl : store = store' := h.after
    exact h'
  | cons visit visits ih =>
    cases visit with
    | shown key value =>
      obtain ⟨hhonest, hafter⟩ := ih ⟨h.honest.2, h.after⟩
      exact ⟨⟨h.honest.1, hhonest⟩, hafter⟩
    | dropped key =>
      obtain ⟨hhonest, hafter⟩ := ih ⟨h.honest, h.after⟩
      exact ⟨hhonest, hafter⟩

theorem Follows.tail {store store' : κ → Option ν} {visit : Visit κ ν} {visits : List (Visit κ ν)}
    (h : Follows store (visit :: visits) store') :
    Honest store [visit] ∧ Follows (Records.after store [visit]) visits store' := by
  cases visit with
  | shown key value => exact ⟨⟨h.honest.1, trivial⟩, h.honest.2, h.after⟩
  | dropped key => exact ⟨trivial, h.honest, h.after⟩

theorem keep_one {store : κ → Option ν} {visit : Visit κ ν} {key : κ} {value : ν} (h : Honest store [visit])
    (hstart : store key = some value) (hkept : .dropped key ≠ visit) :
    after store [visit] key = some value ∧ ∀ other, .shown key other = visit → other = value := by
  cases visit with
  | shown key' value' =>
    by_cases hkey : key = key'
    · have hvalue := h.1
      rw [← hkey, hstart] at hvalue
      obtain rfl : value = value' := by simpa using hvalue
      refine ⟨?_, fun other heq => (Visit.shown.inj heq).2⟩
      rw [after, after, hkey, Function.update_self]
    · refine ⟨?_, fun other heq => absurd (Visit.shown.inj heq).1 hkey⟩
      rwa [after, after, Function.update_of_ne hkey]
  | dropped key' =>
    have hkey : key ≠ key' := fun hkey => hkept (hkey ▸ rfl)
    refine ⟨?_, fun other heq => by cases heq⟩
    rwa [after, after, Function.update_of_ne hkey]

/-- A record that is not dropped stays, and nothing else is shown under its key. -/
theorem Follows.keep {store store' : κ → Option ν} {visits : List (Visit κ ν)} (h : Follows store visits store')
    {key : κ} {value : ν} (hstart : store key = some value) (hkept : .dropped key ∉ visits) :
    store' key = some value ∧ ∀ other, .shown key other ∈ visits → other = value := by
  induction visits generalizing store with
  | nil =>
    obtain rfl : store = store' := h.after
    exact ⟨hstart, fun _ hmem => absurd hmem List.not_mem_nil⟩
  | cons visit visits ih =>
    rw [List.mem_cons, not_or] at hkept
    obtain ⟨hhonest, htail⟩ := h.tail
    obtain ⟨hone, hshown⟩ := keep_one hhonest hstart hkept.1
    obtain ⟨hend, hrest⟩ := ih htail hone hkept.2
    exact ⟨hend, fun other hmem => (List.mem_cons.mp hmem).elim (hshown other) (hrest other)⟩

theorem Follows.of_shown {store store' : κ → Option ν} {key : κ} {value : ν}
    (h : Follows store [.shown key value] store') : store' key = some value := by
  rw [← h.after]
  exact Function.update_self ..

end

/-! ### Several stores -/

section Within

variable {ι : Type*} [DecidableEq ι] [DecidableEq κ]

/-- A visit to the store `i` among several. -/
def Visit.within (i : ι) : Visit κ ν → Visit (ι × κ) ν
  | .shown key value => .shown (i, key) value
  | .dropped key => .dropped (i, key)

theorem uncurry_update (stores : ι → κ → Option ν) (i : ι) (key : κ) (record : Option ν) :
    Function.uncurry (Function.update stores i (Function.update (stores i) key record)) =
      Function.update (Function.uncurry stores) (i, key) record := by
  funext ⟨j, k⟩
  simp only [Function.uncurry_apply_pair, Function.update_apply, Prod.mk.injEq]
  by_cases hj : j = i
  · subst hj
    simp [Function.update_apply]
  · simp [hj]

theorem Follows.within {stores : ι → κ → Option ν} {i : ι} {visits : List (Visit κ ν)} {store' : κ → Option ν}
    (h : Follows (stores i) visits store') :
    Follows (Function.uncurry stores) (visits.map (Visit.within i))
      (Function.uncurry (Function.update stores i store')) := by
  induction visits generalizing stores with
  | nil =>
    obtain rfl : stores i = store' := h.after
    rw [Function.update_eq_self]
    exact .refl _
  | cons visit visits ih =>
    obtain ⟨hhonest, htail⟩ := h.tail
    have hone : Function.update stores i (Records.after (stores i) [visit]) i = Records.after (stores i) [visit] :=
      Function.update_self ..
    have hrest := ih (hone ▸ htail)
    rw [Function.update_idem] at hrest
    have hfirst : Follows (Function.uncurry stores) [Visit.within i visit]
        (Function.uncurry (Function.update stores i (Records.after (stores i) [visit]))) := by
      cases visit with
      | shown key value =>
        rw [Records.after, Records.after, uncurry_update]
        exact .shown hhonest.1
      | dropped key =>
        rw [Records.after, Records.after, uncurry_update]
        exact .dropped _ _
    exact hfirst.trans hrest

end Within

section

variable [DecidableEq κ]

/-- A whole run visits the store as its steps do. -/
theorem Follows.run {step : σ → α → Option σ} {emit : σ → α → List (Visit κ ν)} {G : σ → α → Prop} {I : σ → Prop}
    {view : σ → κ → Option ν}
    (hstep : ∀ s a t, I s → G s a → step s a = some t → I t ∧ Follows (view s) (emit s a) (view t)) :
    ∀ {as : List α} {s u : σ}, Machine.Along step G s as → Machine.run step s as = some u → I s →
      Follows (view s) (Machine.log step emit s as) (view u)
  | [], s, u, _, h, _ => by
    cases h
    exact .refl _
  | a :: as, s, u, hg, h, hs => by
    obtain ⟨t, ht, h⟩ := Machine.run_cons_eq_some.mp h
    rw [Machine.along_cons ht] at hg
    obtain ⟨hI, hfollows⟩ := hstep s a t hs hg.1 ht
    rw [Machine.log_cons ht]
    exact hfollows.trans (Follows.run hstep hg.2 h hI)

end

end Records
