import Mathlib.Data.List.Nodup

/-! Dictionaries in the order of insertion. A key that is set again keeps its place, so a dictionary is a
list of entries with different keys. -/

structure Dict (κ ν : Type*) where
  entries : List (κ × ν)
  nodup : (entries.map Prod.fst).Nodup

namespace Dict

variable {κ ν : Type*}

def empty : Dict κ ν := ⟨[], List.nodup_nil⟩

def size (d : Dict κ ν) : ℕ := d.entries.length

/-- The entries that satisfy `p`. -/
def filter (d : Dict κ ν) (p : κ × ν → Bool) : Dict κ ν :=
  ⟨d.entries.filter p, d.nodup.sublist (List.filter_sublist.map _)⟩

variable [DecidableEq κ]

def get (d : Dict κ ν) (k : κ) : Option ν := d.entries.lookup k

def setEntry (k : κ) (v : ν) : List (κ × ν) → List (κ × ν)
  | [] => [(k, v)]
  | e :: es => if e.1 = k then (k, v) :: es else e :: setEntry k v es

theorem map_fst_setEntry (k : κ) (v : ν) (es : List (κ × ν)) :
    (setEntry k v es).map Prod.fst = if k ∈ es.map Prod.fst then es.map Prod.fst else es.map Prod.fst ++ [k] := by
  induction es with
  | nil => rfl
  | cons e es ih =>
    rw [setEntry, List.map_cons]
    by_cases h : e.1 = k
    · rw [if_pos h, if_pos (List.mem_cons.mpr (.inl h.symm)), List.map_cons, h]
    · rw [if_neg h, List.map_cons, ih]
      by_cases hmem : k ∈ es.map Prod.fst
      · rw [if_pos hmem, if_pos (List.mem_cons_of_mem _ hmem)]
      · have hout : k ∉ e.1 :: es.map Prod.fst := by
          rw [List.mem_cons]
          exact not_or.mpr ⟨Ne.symm h, hmem⟩
        rw [if_neg hmem, if_neg hout, List.cons_append]

/-- `d[k] = v` -/
def set (d : Dict κ ν) (k : κ) (v : ν) : Dict κ ν where
  entries := setEntry k v d.entries
  nodup := by
    rw [map_fst_setEntry]
    split
    · exact d.nodup
    · rename_i hmem
      refine d.nodup.append (List.nodup_singleton k) fun x hx hk => hmem ?_
      rwa [← List.mem_singleton.mp hk]

/-- `d.update(entries)` -/
def update (d : Dict κ ν) (entries : List (κ × ν)) : Dict κ ν := entries.foldl (fun d e => d.set e.1 e.2) d

@[simp] theorem get_empty (k : κ) : (empty : Dict κ ν).get k = none := rfl

theorem lookup_cons [BEq κ] [LawfulBEq κ] (e : κ × ν) (es : List (κ × ν)) (k : κ) :
    (e :: es).lookup k = if k = e.1 then some e.2 else es.lookup k := by
  rw [List.lookup_cons]
  by_cases h : k = e.1 <;> simp [h, beq_false_of_ne]

theorem lookup_eq_some [BEq κ] [LawfulBEq κ] {es : List (κ × ν)} (hes : (es.map Prod.fst).Nodup) {k : κ} {v : ν} :
    es.lookup k = some v ↔ (k, v) ∈ es := by
  induction es with
  | nil => simp
  | cons e es ih =>
    rw [List.map_cons, List.nodup_cons] at hes
    rw [lookup_cons, List.mem_cons]
    by_cases h : k = e.1
    · have hout : (k, v) ∉ es := fun hmem => hes.1 (h ▸ List.mem_map_of_mem hmem)
      rw [if_pos h, or_iff_left hout]
      simp [Prod.ext_iff, h, eq_comm]
    · rw [if_neg h, ih hes.2]
      simp [Prod.ext_iff, h]

theorem get_eq_some {d : Dict κ ν} {k : κ} {v : ν} : d.get k = some v ↔ (k, v) ∈ d.entries := lookup_eq_some d.nodup

theorem get_set (d : Dict κ ν) (k k' : κ) (v : ν) : (d.set k v).get k' = if k' = k then some v else d.get k' := by
  unfold get set
  dsimp only
  induction d.entries with
  | nil => exact lookup_cons _ _ _
  | cons e es ih =>
    rw [setEntry]
    by_cases h : e.1 = k
    · rw [if_pos h, lookup_cons, lookup_cons, h]
      split <;> rfl
    · rw [if_neg h, lookup_cons, lookup_cons, ih]
      by_cases hk : k' = k
      · rw [if_pos hk, if_neg (hk ▸ Ne.symm h), if_pos hk]
      · rw [if_neg hk, if_neg hk]

theorem get_filter (d : Dict κ ν) (p : κ × ν → Bool) (k : κ) :
    (d.filter p).get k = (d.get k).filter fun v => p (k, v) := by
  refine Option.ext fun v => ?_
  rw [get_eq_some, Option.filter_eq_some_iff, get_eq_some]
  exact List.mem_filter

theorem setEntry_of_notMem {k : κ} {es : List (κ × ν)} (h : k ∉ es.map Prod.fst) (v : ν) :
    setEntry k v es = es ++ [(k, v)] := by
  induction es with
  | nil => rfl
  | cons e es ih =>
    rw [List.map_cons, List.mem_cons, not_or] at h
    rw [setEntry, if_neg (Ne.symm h.1), ih h.2, List.cons_append]

/-- New keys come last, in their order. -/
theorem entries_update {d : Dict κ ν} {es : List (κ × ν)} (h : (d.entries.map Prod.fst ++ es.map Prod.fst).Nodup) :
    (d.update es).entries = d.entries ++ es := by
  induction es generalizing d with
  | nil => exact (List.append_nil _).symm
  | cons e es ih =>
    have hnew : e.1 ∉ d.entries.map Prod.fst := fun hmem =>
      List.disjoint_of_nodup_append h hmem (List.mem_map_of_mem List.mem_cons_self)
    have hset : (d.set e.1 e.2).entries = d.entries ++ [e] := setEntry_of_notMem hnew e.2
    have hrest : ((d.set e.1 e.2).entries.map Prod.fst ++ es.map Prod.fst).Nodup := by
      rw [hset, List.map_append, List.append_assoc]
      exact h
    rw [update, List.foldl_cons]
    exact (ih hrest).trans (by rw [hset, List.append_assoc, List.singleton_append])

end Dict
