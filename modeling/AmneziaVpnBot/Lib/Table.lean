import Mathlib.Data.List.Basic
import Mathlib.Data.List.Sort
import Mathlib.Logic.Function.Basic

/-! Tables whose rows are never deleted. The key of a row is its position, so a
fresh key is the number of rows. An update names its row by key. The last sections
are about a session. Its unit of work writes back the columns it changed from the
values it had loaded, and leaves the other columns of the stored row alone; and a row
that it holds is not loaded again, so it may be older than the stored one. -/

abbrev Table (α : Type*) := List α

namespace Table

variable {α : Type*}

/-- The key the next inserted row gets. -/
def fresh (t : Table α) : ℕ := t.length

def insert (t : Table α) (a : α) : Table α := t ++ [a]

def update (t : Table α) (i : ℕ) (f : α → α) : Table α := t.modify i f

/-- The keys of the rows that satisfy `p`, in key order. -/
def select (t : Table α) (p : α → Bool) : List ℕ :=
  (List.range t.length).filter fun i => t[i]?.any p

theorem get_insert (t : Table α) (a : α) (i : ℕ) :
    (t.insert a)[i]? = if i = t.fresh then some a else t[i]? := by
  unfold insert fresh
  split_ifs with h
  · subst h; simp
  · rcases Nat.lt_or_gt_of_ne h with h | h
    · simp [List.getElem?_append_left h]
    · rw [List.getElem?_eq_none (by simp; omega), List.getElem?_eq_none (by omega)]

theorem get_fresh (t : Table α) : t[t.fresh]? = none := by simp [fresh]

theorem get_insert_of_some {t : Table α} {i : ℕ} {r : α} (a : α) (h : t[i]? = some r) :
    (t.insert a)[i]? = some r := by
  rw [get_insert, if_neg, h]
  rintro rfl
  rw [get_fresh] at h
  cases h

theorem get_update (t : Table α) (i : ℕ) (f : α → α) (j : ℕ) :
    (t.update i f)[j]? = if i = j then t[j]?.map f else t[j]? := by
  rw [update, List.getElem?_modify]
  split_ifs <;> cases t[j]? <;> simp

theorem get_update_self (t : Table α) (i : ℕ) (f : α → α) :
    (t.update i f)[i]? = t[i]?.map f := by simp [get_update]

theorem get_update_of_ne (t : Table α) {i j : ℕ} (f : α → α) (h : i ≠ j) :
    (t.update i f)[j]? = t[j]? := by simp [get_update, h]

@[simp] theorem update_id (t : Table α) (i : ℕ) : t.update i (fun a => a) = t := by
  refine List.ext_getElem? fun j => ?_
  rw [get_update]
  split_ifs <;> simp

@[simp] theorem fresh_update (t : Table α) (i : ℕ) (f : α → α) : (t.update i f).fresh = t.fresh := by
  simp [fresh, update]

@[simp] theorem fresh_insert (t : Table α) (a : α) : (t.insert a).fresh = t.fresh + 1 := by
  simp [fresh, insert]

theorem mem_select {t : Table α} {p : α → Bool} {i : ℕ} :
    i ∈ t.select p ↔ ∃ r, t[i]? = some r ∧ p r := by
  simp only [select, List.mem_filter, List.mem_range, Option.any_eq_true]
  constructor
  · rintro ⟨-, h⟩; exact h
  · rintro ⟨r, hr, hp⟩
    exact ⟨(List.getElem?_eq_some_iff.mp hr).1, r, hr, hp⟩

theorem select_nodup (t : Table α) (p : α → Bool) : (t.select p).Nodup :=
  List.nodup_range.filter _

theorem select_length_le_one {t : Table α} {p : α → Bool} (hsame : ∀ i ∈ t.select p, ∀ j ∈ t.select p, i = j) :
    (t.select p).length ≤ 1 := by
  have hnodup := t.select_nodup p
  match h : t.select p with
  | [] => simp
  | [_] => simp
  | i :: j :: l =>
    have hij := hsame i (by simp [h]) j (by simp [h])
    simp [h, hij] at hnodup

theorem select_eq_singleton {t : Table α} {p : α → Bool} {i : ℕ} (hi : i ∈ t.select p)
    (hsame : ∀ j ∈ t.select p, j = i) : t.select p = [i] := by
  have hone := t.select_length_le_one fun j hj k hk => (hsame j hj).trans (hsame k hk).symm
  match h : t.select p with
  | [] => simp [h] at hi
  | [j] => rw [hsame j (by simp [h])]
  | j :: k :: l => simp [h] at hone

/-- An update changes the number of rows that satisfy `p` by its own row. -/
theorem countP_update {t : Table α} {i : ℕ} {a : α} (h : t[i]? = some a) (f : α → α) (p : α → Bool) :
    (t.update i f).countP p + (if p a then 1 else 0) = t.countP p + if p (f a) then 1 else 0 := by
  unfold update
  induction t generalizing i with
  | nil => simp at h
  | cons b t ih => cases i with
    | zero =>
      rw [List.getElem?_cons_zero, Option.some.injEq] at h
      subst h
      simp only [List.modify_zero_cons, List.countP_cons]
      omega
    | succ i =>
      rw [List.getElem?_cons_succ] at h
      simp only [List.modify_succ_cons, List.countP_cons]
      have := ih h
      omega

theorem countP_insert (t : Table α) (a : α) (p : α → Bool) :
    (t.insert a).countP p = t.countP p + if p a then 1 else 0 := by
  simp [insert, List.countP_append, List.countP_cons]

/-! ### Rows of a table -/

/-- Every row satisfies `P`, which may look at the key. -/
def All (t : Table α) (P : ℕ → α → Prop) : Prop := ∀ i r, t[i]? = some r → P i r

theorem All.insert {t : Table α} {P : ℕ → α → Prop} {a : α} (h : t.All P) (ha : P t.fresh a) :
    (t.insert a).All P := by
  intro i r hr
  rw [get_insert] at hr
  split_ifs at hr with hi
  · cases hr; exact hi ▸ ha
  · exact h i r hr

theorem All.update {t : Table α} {P : ℕ → α → Prop} {i : ℕ} {f : α → α} (h : t.All P)
    (hf : ∀ r, t[i]? = some r → P i r → P i (f r)) : (t.update i f).All P := by
  intro j r hr
  rw [get_update] at hr
  split_ifs at hr with hij
  · subst hij
    obtain ⟨s, hs, rfl⟩ := Option.map_eq_some_iff.mp hr
    exact hf s hs (h i s hs)
  · exact h j r hr

theorem All.mono {t : Table α} {P Q : ℕ → α → Prop} (h : t.All P) (hpq : ∀ i r, P i r → Q i r) :
    t.All Q := fun i r hr => hpq i r (h i r hr)

/-! ### Unit of work -/

/-- The stored value of a column after a session that loaded `loaded` and set it to
`set` writes its row back: a column that was not changed is not written. -/
def flushColumn {β : Type*} [DecidableEq β] (loaded set stored : β) : β :=
  if set = loaded then stored else set

@[simp] theorem flushColumn_current {β : Type*} [DecidableEq β] (loaded set : β) :
    flushColumn loaded set loaded = set := by
  unfold flushColumn; split_ifs with h
  · exact h.symm
  · rfl

@[simp] theorem flushColumn_unset {β : Type*} [DecidableEq β] (loaded stored : β) :
    flushColumn loaded loaded stored = stored := by simp [flushColumn]

/-- A written column holds what was stored, or what the session set. -/
theorem flushColumn_eq_or {β : Type*} [DecidableEq β] (loaded set stored : β) :
    flushColumn loaded set stored = stored ∨ flushColumn loaded set stored = set := by
  unfold flushColumn
  split_ifs
  · exact .inl rfl
  · exact .inr rfl

/-- What was stored as it was loaded is stored as it is set. -/
theorem flushColumn_eq {β : Type*} [DecidableEq β] {loaded stored : β} (h : stored = loaded) (set : β) :
    flushColumn loaded set stored = set := by rw [h, flushColumn_current]

/-! ### The rows a session holds -/

/-- The rows of a table that a session has loaded, as it has them. -/
abbrev Held (α : Type*) := ℕ → Option α

namespace Held

/-- The table as the session sees it: of a row that it holds, it sees its own version. -/
def view (held : Held α) (t : Table α) : Table α := t.mapIdx fun i stored => (held i).getD stored

/-- A query for the rows that satisfy `p`, which keeps the versions it holds. -/
def load (held : Held α) (t : Table α) (p : ℕ → α → Bool) : Held α := fun i => (held i).or ((t[i]?).filter (p i))

def forget (held : Held α) (p : α → Bool) : Held α := fun i => (held i).filter fun row => !p row

/-- The versions that are held are related to the stored ones. -/
def Related (R : ℕ → α → α → Prop) (held : Held α) (t : Table α) : Prop :=
  ∀ i seen, held i = some seen → ∃ stored, t[i]? = some stored ∧ R i seen stored

variable {held : Held α} {t t' : Table α} {R : ℕ → α → α → Prop} {i : ℕ}

/-- A row that is seen is held, or it is the stored one. -/
theorem of_view {seen : α} (h : (held.view t)[i]? = some seen) :
    ∃ stored, t[i]? = some stored ∧ (held i = some seen ∨ seen = stored) := by
  rw [view, List.getElem?_mapIdx] at h
  obtain ⟨stored, hstored, hseen⟩ := Option.map_eq_some_iff.mp h
  refine ⟨stored, hstored, ?_⟩
  cases hheld : held i with
  | none =>
    rw [hheld] at hseen
    exact .inr hseen.symm
  | some row =>
    rw [hheld] at hseen
    exact .inl (congrArg some hseen)

theorem of_load {p : ℕ → α → Bool} {seen : α} (h : held.load t p i = some seen) :
    held i = some seen ∨ t[i]? = some seen := by
  rcases Option.or_eq_some_iff.mp h with hheld | ⟨-, hstored⟩
  · exact .inl hheld
  · exact .inr (Option.filter_eq_some_iff.mp hstored).1

theorem of_forget {p : α → Bool} {seen : α} (h : held.forget p i = some seen) : held i = some seen :=
  (Option.filter_eq_some_iff.mp h).1

theorem view_of_none (h : held i = none) : (held.view t)[i]? = t[i]? := by
  rw [view, List.getElem?_mapIdx, h]
  exact Option.map_id'

theorem view_of_some {seen stored : α} (h : held i = some seen) (hstored : t[i]? = some stored) :
    (held.view t)[i]? = some seen := by
  rw [view, List.getElem?_mapIdx, hstored, h]
  rfl

theorem isSome_view : ((held.view t)[i]?).isSome = (t[i]?).isSome := by
  rw [view, List.getElem?_mapIdx, Option.isSome_map]

/-- What is held of the row, if anything, is the stored row. -/
theorem view_of_current (h : ∀ seen, held i = some seen → t[i]? = some seen) : (held.view t)[i]? = t[i]? := by
  cases hheld : held i with
  | none => exact view_of_none hheld
  | some seen => rw [view, List.getElem?_mapIdx, h seen hheld, hheld, Option.map_some, Option.getD_some]

theorem Related.empty (t : Table α) : Related R (fun _ => none) t := fun _ _ h => by cases h

/-- The version that is seen is related to the stored one. -/
theorem Related.view (h : Related R held t) (hrefl : ∀ i stored, t[i]? = some stored → R i stored stored) {seen : α}
    (hseen : (held.view t)[i]? = some seen) : ∃ stored, t[i]? = some stored ∧ R i seen stored := by
  obtain ⟨stored, hstored, hheld | rfl⟩ := of_view hseen
  · exact h i seen hheld
  · exact ⟨seen, hstored, hrefl i seen hstored⟩

theorem Related.load (h : Related R held t) (hrefl : ∀ i stored, t[i]? = some stored → R i stored stored)
    (p : ℕ → α → Bool) : Related R (held.load t p) t := by
  intro i seen hseen
  rcases of_load hseen with hheld | hstored
  · exact h i seen hheld
  · exact ⟨seen, hstored, hrefl i seen hstored⟩

theorem Related.forget (h : Related R held t) (p : α → Bool) : Related R (held.forget p) t :=
  fun i seen hseen => h i seen (of_forget hseen)

/-- The stored rows change so that what was related to them still is. -/
theorem Related.change (h : Related R held t)
    (hrow : ∀ i stored, t[i]? = some stored → ∃ stored', t'[i]? = some stored' ∧
    ∀ seen, R i seen stored → R i seen stored') : Related R held t' := by
  intro i seen hseen
  obtain ⟨stored, hstored, hrel⟩ := h i seen hseen
  obtain ⟨stored', hstored', hkeep⟩ := hrow i stored hstored
  exact ⟨stored', hstored', hkeep seen hrel⟩

/-- The session sets a row and writes it. -/
theorem Related.set (h : Related R held t) {stored set : α} (hstored : t[i]? = some stored) {f : α → α}
    (hset : R i set (f stored)) : Related R (Function.update held i (some set)) (t.update i f) := by
  intro j seen hseen
  by_cases hj : j = i
  · subst hj
    rw [Function.update_self, Option.some.injEq] at hseen
    subst hseen
    exact ⟨f stored, by rw [get_update_self, hstored]; rfl, hset⟩
  · rw [Function.update_of_ne hj] at hseen
    obtain ⟨row, hrow, hrel⟩ := h j seen hseen
    exact ⟨row, by rw [get_update_of_ne _ _ (Ne.symm hj), hrow], hrel⟩

end Held

end Table
