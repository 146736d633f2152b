import Mathlib.Data.List.Nodup
import Mathlib.Data.List.Perm.Basic

/-!
# Maps in insertion order

A map holds its entries in the order in which their keys were inserted. Setting the value
of a key that is present keeps its place.
-/

/-- A map from keys to values. -/
structure JsMap (κ ν : Type) where
  entries : List (κ × ν)
  nodup : (entries.map Prod.fst).Nodup

namespace JsMap

variable {κ ν : Type}

/-- The map without entries. -/
def empty : JsMap κ ν := ⟨[], .nil⟩

/-- The values, in the order of the keys. -/
def values (m : JsMap κ ν) : List ν := m.entries.map Prod.snd

variable {m : JsMap κ ν}

theorem ext_entries {m' : JsMap κ ν} (h : m.entries = m'.entries) :
  m = m'
  := by
  cases m
  cases m'
  cases h
  rfl

/-- The entries that satisfy a condition. -/
def filter (m : JsMap κ ν) (p : κ × ν → Bool) : JsMap κ ν :=
  ⟨m.entries.filter p, m.nodup.sublist (List.filter_sublist.map Prod.fst)⟩

variable [DecidableEq κ]

/-- The value of a key in a list of entries. -/
def lookup (k : κ) : List (κ × ν) → Option ν
  | [] => none
  | (l, v) :: rest => if l = k then some v else lookup k rest

/-- The value of a key. -/
def get? (m : JsMap κ ν) (k : κ) : Option ν := lookup k m.entries

/-- Set the value of a key in a list of entries. -/
def put (k : κ) (v : ν) : List (κ × ν) → List (κ × ν)
  | [] => [(k, v)]
  | (l, w) :: rest => if l = k then (k, v) :: rest else (l, w) :: put k v rest

theorem keys_put (k : κ) (v : ν) (l : List (κ × ν)) :
  (put k v l).map Prod.fst = if k ∈ l.map Prod.fst then l.map Prod.fst
    else l.map Prod.fst ++ [k]
  := by
  induction l with
  | nil => rfl
  | cons e rest ih =>
      obtain ⟨l, w⟩ := e
      rw [put]
      by_cases hk : l = k
      · simp [hk]
      · have hk' : k ≠ l := Ne.symm hk
        simp only [if_neg hk, List.map_cons, ih, List.mem_cons, hk', false_or]
        split
        · rfl
        · rfl

/-- Set the value of a key. -/
def set (m : JsMap κ ν) (k : κ) (v : ν) : JsMap κ ν where
  entries := put k v m.entries
  nodup := by
    rw [keys_put]
    split
    · exact m.nodup
    · rename_i hk
      apply m.nodup.append (List.nodup_singleton k)
      rw [List.disjoint_singleton]
      exact hk

/-- Delete a key. -/
def delete (m : JsMap κ ν) (k : κ) : JsMap κ ν := m.filter (fun e => e.1 ≠ k)

/-! ### Lookups -/

variable {l : List (κ × ν)} {k : κ} {v : ν}

theorem lookup_eq_some (h : (l.map Prod.fst).Nodup) :
  lookup k l = some v ↔ (k, v) ∈ l
  := by
  induction l with
  | nil => simp [lookup]
  | cons e rest ih =>
      obtain ⟨l, w⟩ := e
      rw [List.map_cons, List.nodup_cons] at h
      rw [lookup, List.mem_cons]
      by_cases hk : l = k
      · subst hk
        rw [if_pos rfl]
        constructor
        · rintro ⟨⟩
          exact .inl rfl
        · rintro (heq | hmem)
          · cases heq
            rfl
          · exact absurd (List.mem_map_of_mem hmem) h.1
      · rw [if_neg hk, ih h.2]
        constructor
        · exact .inr
        · rintro (heq | hmem)
          · cases heq
            exact absurd rfl hk
          · exact hmem

/-- The order of the entries does not matter to the values of keys. -/
theorem lookup_perm {l' : List (κ × ν)} (h : (l.map Prod.fst).Nodup) (hperm : l.Perm l') (k : κ) :
  lookup k l = lookup k l'
  := by
  have h' : (l'.map Prod.fst).Nodup := (hperm.map Prod.fst).nodup_iff.mp h
  apply Option.ext
  intro v
  rw [lookup_eq_some h, lookup_eq_some h', hperm.mem_iff]

theorem lookup_map {μ : Type} (f : ν → μ) (l : List (κ × ν)) (k : κ) :
  lookup k (l.map (fun e => (e.1, f e.2))) = (lookup k l).map f
  := by
  induction l with
  | nil => rfl
  | cons e rest ih =>
      obtain ⟨l, w⟩ := e
      rw [List.map_cons, lookup, lookup]
      split
      · rfl
      · exact ih

theorem get?_eq_some :
  m.get? k = some v ↔ (k, v) ∈ m.entries
  := lookup_eq_some m.nodup

theorem get?_eq_none :
  m.get? k = none ↔ ∀ v, (k, v) ∉ m.entries
  := by
  rw [Option.eq_none_iff_forall_ne_some]
  apply forall_congr'
  intro v
  rw [ne_eq, get?_eq_some]

@[simp]
theorem get?_empty (k : κ) :
  (empty : JsMap κ ν).get? k = none
  := rfl

theorem lookup_put (k k' : κ) (v : ν) (l : List (κ × ν)) :
  lookup k' (put k v l) = if k' = k then some v else lookup k' l
  := by
  induction l with
  | nil => simp [put, lookup, eq_comm]
  | cons e rest ih =>
      obtain ⟨l, w⟩ := e
      rw [put]
      by_cases hk : l = k
      · subst hk
        by_cases hk' : k' = l
        · simp [lookup, hk']
        · simp [lookup, hk', Ne.symm hk']
      · rw [if_neg hk, lookup, ih, lookup]
        by_cases hk' : l = k'
        · subst hk'
          simp [hk]
        · simp [hk']

@[simp]
theorem get?_set (m : JsMap κ ν) (k k' : κ) (v : ν) :
  (m.set k v).get? k' = if k' = k then some v else m.get? k'
  := lookup_put k k' v m.entries

omit [DecidableEq κ] in
theorem mem_entries_filter {p : κ × ν → Bool} {e : κ × ν} :
  e ∈ (m.filter p).entries ↔ e ∈ m.entries ∧ p e = true
  := List.mem_filter

theorem get?_filter_eq_some {p : κ × ν → Bool} :
  (m.filter p).get? k = some v ↔ m.get? k = some v ∧ p (k, v) = true
  := by
  rw [get?_eq_some, get?_eq_some, mem_entries_filter]

@[simp]
theorem get?_delete (m : JsMap κ ν) (k k' : κ) :
  (m.delete k).get? k' = if k' = k then none else m.get? k'
  := by
  apply Option.ext
  intro v
  rw [delete, get?_filter_eq_some]
  by_cases hk : k' = k
  · simp [hk]
  · simp [hk]

/-! ### What undoes a change -/

theorem put_lookup {w : ν} (h : lookup k l = some w) :
  put k w (put k v l) = l
  := by
  induction l with
  | nil => cases h
  | cons e rest ih =>
      obtain ⟨l, u⟩ := e
      rw [lookup] at h
      rw [put]
      by_cases hk : l = k
      · rw [if_pos hk] at h
        cases h
        simp [hk, put]
      · rw [if_neg hk] at h
        simp [hk, put, ih h]

/-- Setting a key back to its value undoes a change of it. -/
theorem set_set_of_get? {w : ν} (v : ν) (h : m.get? k = some w) :
  (m.set k v).set k w = m
  := ext_entries (put_lookup h)

theorem filter_put (v : ν) (h : lookup k l = none) :
  (put k v l).filter (fun e => e.1 ≠ k) = l
  := by
  induction l with
  | nil => simp [put]
  | cons e rest ih =>
      obtain ⟨l, u⟩ := e
      rw [lookup] at h
      by_cases hk : l = k
      · rw [if_pos hk] at h
        cases h
      · rw [if_neg hk] at h
        rw [put, if_neg hk, List.filter_cons, if_pos (by simpa using hk), ih h]

/-- Deleting a key that was not present undoes its insertion. -/
theorem delete_set_of_get? (v : ν) (h : m.get? k = none) :
  (m.set k v).delete k = m
  := ext_entries (filter_put v h)

end JsMap
