import GoLike.Lib.JsMap
import GoLike.Lib.OwnOrder

/-!
# Objects as lists of properties

An object is kept as the list of its properties in its own order. A list is one of an object
when the names are distinct and in that order. Setting the properties of an object one by one in
a new object gives the same object again.

A record may be set up from entries that are sorted by their names first. It depends on the entries
alone and not on their order, and a record that is set up again from its own entries stays as it is.
-/

namespace OwnOrder

variable {α β : Type}

/-- The list holds the properties of an object, in its own order. -/
structure Listed (l : List (JsString × α)) : Prop where
  nodup : (l.map Prod.fst).Nodup
  own : ownOrder l = l

/-- A property is listed before another one: no array index follows another name, and they
follow each other by their numbers. -/
def Precedes (p q : JsString × α) : Prop :=
  isIndex q = true → isIndex p = true ∧ indexValue p ≤ indexValue q

/-- The own order is one in which properties precede each other. -/
theorem pairwise_ownOrder (l : List (JsString × α)) :
  (ownOrder l).Pairwise Precedes
  := by
  have total : Std.Total (fun p q : JsString × α => indexValue p ≤ indexValue q) :=
    ⟨fun p q => le_total (indexValue p) (indexValue q)⟩
  have trans : IsTrans (JsString × α) (fun p q => indexValue p ≤ indexValue q) :=
    ⟨fun p q r => le_trans (a := indexValue p) (b := indexValue q) (c := indexValue r)⟩
  have hother : ∀ q ∈ l.filter (fun p => !isIndex p), isIndex q = false := by
    intro q hq
    simpa using (List.mem_filter.1 hq).2
  apply List.pairwise_append.2
  refine ⟨?_, ?_, ?_⟩
  · have hsorted := List.pairwise_insertionSort (fun p q : JsString × α =>
      indexValue p ≤ indexValue q) (l.filter isIndex)
    apply hsorted.imp_of_mem
    intro p q hp _ hle _
    rw [List.mem_insertionSort] at hp
    exact ⟨(List.mem_filter.1 hp).2, hle⟩
  · apply List.pairwise_of_forall_mem_list
    intro p _ q hq hindex
    rw [hother q hq] at hindex
    cases hindex
  · intro p _ q hq hindex
    rw [hother q hq] at hindex
    cases hindex

variable {l : List (JsString × α)}

/-- A list in which properties precede each other is in the own order. -/
theorem ownOrder_of_pairwise (h : l.Pairwise Precedes) :
  ownOrder l = l
  := by
  have hsplit : l.filter isIndex ++ l.filter (fun p => !isIndex p) = l := by
    induction l with
    | nil => rfl
    | cons p l ih =>
        obtain ⟨hp, hl⟩ := List.pairwise_cons.1 h
        cases hindex : isIndex p with
        | true =>
            rw [List.filter_cons_of_pos hindex, List.filter_cons_of_neg (by simp [hindex]),
              List.cons_append, ih hl]
        | false =>
            have hnone : ∀ q ∈ l, isIndex q = false := by
              intro q hq
              by_contra hq'
              rw [Bool.not_eq_false] at hq'
              have hp' := (hp q hq hq').1
              rw [hindex] at hp'
              cases hp'
            rw [List.filter_cons_of_neg (by simp [hindex]),
              List.filter_cons_of_pos (by simp [hindex]), List.filter_eq_nil_iff.2,
              List.filter_eq_self.2, List.nil_append]
            · intro q hq
              simp [hnone q hq]
            · intro q hq
              simp [hnone q hq]
  have hsorted : (l.filter isIndex).insertionSort (fun p q => indexValue p ≤ indexValue q) =
      l.filter isIndex := by
    apply List.Pairwise.insertionSort_eq
    have hfilter := List.Pairwise.filter isIndex h
    apply hfilter.imp_of_mem
    intro p q _ hq hprecedes
    exact (hprecedes (List.mem_filter.1 hq).2).2
  rw [ownOrder, hsorted, hsplit]

/-- Whether properties precede each other is about their names. -/
theorem precedes_iff_of_names {p q : JsString × α} {p' q' : JsString × β} (hp : p.1 = p'.1)
    (hq : q.1 = q'.1) :
  Precedes p q ↔ Precedes p' q'
  := by
  simp only [Precedes, isIndex, indexValue, hp, hq]

theorem pairwise_precedes_iff :
  l.Pairwise Precedes ↔
    (l.map Prod.fst).Pairwise (fun k k' => Precedes (α := Unit) (k, ()) (k', ()))
  := by
  rw [List.pairwise_map]
  exact List.Pairwise.iff fun p q => precedes_iff_of_names rfl rfl

namespace Listed

theorem nil : Listed ([] : List (JsString × α))
  := ⟨List.nodup_nil, rfl⟩

variable {l : List (JsString × α)}

theorem pairwise (h : Listed l) :
  l.Pairwise Precedes
  := by
  rw [← h.own]
  exact pairwise_ownOrder l

/-- A list of some of the names is listed as well. -/
theorem sublist {m : List (JsString × β)} (h : Listed l)
    (hm : (m.map Prod.fst).Sublist (l.map Prod.fst)) :
  Listed m
  := by
  constructor
  case nodup => exact h.nodup.sublist hm
  case own =>
    apply ownOrder_of_pairwise
    apply pairwise_precedes_iff.2
    exact (pairwise_precedes_iff.1 h.pairwise).sublist hm

/-- The own order of a list with distinct names is that of an object. -/
theorem ownOrder (h : (l.map Prod.fst).Nodup) :
  Listed (ownOrder l)
  := ⟨((ownOrder_perm l).map Prod.fst).nodup_iff.2 h, ownOrder_ownOrder l⟩

theorem nodup_put (h : (l.map Prod.fst).Nodup) (k : JsString) (v : α) :
  ((JsMap.put k v l).map Prod.fst).Nodup
  := (JsMap.set ⟨l, h⟩ k v).nodup

/-- A property that is set is listed. -/
theorem put (h : Listed l) (k : JsString) (v : α) :
  Listed (OwnOrder.ownOrder (JsMap.put k v l))
  := ownOrder (nodup_put h.nodup k v)

end Listed

theorem put_of_notMem {k : JsString} (hk : k ∉ l.map Prod.fst) (v : α) :
  JsMap.put k v l = l ++ [(k, v)]
  := by
  induction l with
  | nil => rfl
  | cons p l ih =>
      obtain ⟨k', w⟩ := p
      rw [List.map_cons, List.mem_cons, not_or] at hk
      rw [JsMap.put, if_neg (Ne.symm hk.1), ih hk.2, List.cons_append]

/-- The property that follows those that are set already is fresh, and is set behind them. -/
theorem Listed.put_next {m : List (JsString × α)} {k : JsString} {v : α}
    (h : Listed (l ++ (k, v) :: m)) :
  k ∉ l.map Prod.fst ∧ OwnOrder.ownOrder (JsMap.put k v l) = l ++ [(k, v)]
  := by
  have hk : k ∉ l.map Prod.fst := by
    have hnodup := h.nodup
    rw [List.map_append, List.nodup_append'] at hnodup
    intro hmem
    exact hnodup.2.2 hmem List.mem_cons_self
  have hlisted : Listed (l ++ [(k, v)]) := by
    have happend : l ++ [(k, v)] ++ m = l ++ (k, v) :: m := by simp
    apply h.sublist
    rw [← happend]
    exact (List.sublist_append_left _ m).map _
  exact ⟨hk, by rw [put_of_notMem hk, hlisted.own]⟩

/-- The object to which properties are set one by one. -/
def fromEntries (l : List (JsString × α)) : List (JsString × α) :=
  ownOrder (l.foldl (fun properties p => JsMap.put p.1 p.2 properties) [])

theorem foldl_put {m : List (JsString × α)} (h : ((l ++ m).map Prod.fst).Nodup) :
  m.foldl (fun properties p => JsMap.put p.1 p.2 properties) l = l ++ m
  := by
  induction m generalizing l with
  | nil => rw [List.foldl_nil, List.append_nil]
  | cons p m ih =>
      obtain ⟨k, v⟩ := p
      have happend : l ++ [(k, v)] ++ m = l ++ (k, v) :: m := by simp
      have hk : k ∉ l.map Prod.fst := by
        rw [List.map_append, List.nodup_append'] at h
        intro hmem
        exact h.2.2 hmem List.mem_cons_self
      rw [List.foldl_cons, put_of_notMem hk, ih (by rwa [happend]), happend]

/-- Properties with distinct names. -/
theorem fromEntries_eq (h : (l.map Prod.fst).Nodup) :
  fromEntries l = ownOrder l
  := by
  rw [fromEntries, foldl_put h, List.nil_append]

/-- The object that is set up lists distinct names in its own order. -/
theorem listed_fromEntries (l : List (JsString × α)) :
  Listed (fromEntries l)
  := by
  have hnodup : ∀ {m : List (JsString × α)}, (m.map Prod.fst).Nodup →
      ((l.foldl (fun properties p => JsMap.put p.1 p.2 properties) m).map Prod.fst).Nodup := by
    induction l with
    | nil => exact fun h => h
    | cons p l ih => exact fun h => ih (Listed.nodup_put h p.1 p.2)
  exact Listed.ownOrder (hnodup List.nodup_nil)

/-- An object that is listed is set up again from its properties. -/
theorem Listed.fromEntries (h : Listed l) :
  OwnOrder.fromEntries l = l
  := by
  rw [fromEntries_eq h.nodup, h.own]

/-! ### Records from sorted names -/

section

variable (r : JsString → JsString → Prop) [DecidableRel r]

/-- The entries, sorted by their names. -/
def sortByName (entries : List (JsString × α)) : List (JsString × α) :=
  entries.insertionSort fun p q => r p.1 q.1

/-- The entries of the record that is set up from entries with distinct names. -/
def sortedRecord (entries : List (JsString × α)) : List (JsString × α) :=
  fromEntries (sortByName r entries)

variable {r}

theorem sortByName_perm (entries : List (JsString × α)) :
  (sortByName r entries).Perm entries
  := List.perm_insertionSort _ _

variable {entries : List (JsString × α)}

theorem nodup_sortByName (h : (entries.map Prod.fst).Nodup) :
  ((sortByName r entries).map Prod.fst).Nodup
  := ((sortByName_perm entries).map Prod.fst).nodup_iff.2 h

theorem sortedRecord_perm (h : (entries.map Prod.fst).Nodup) :
  (sortedRecord r entries).Perm entries
  := by
  rw [sortedRecord, fromEntries_eq (nodup_sortByName h)]
  exact (ownOrder_perm _).trans (sortByName_perm entries)

theorem nodup_sortedRecord (h : (entries.map Prod.fst).Nodup) :
  ((sortedRecord r entries).map Prod.fst).Nodup
  := ((sortedRecord_perm h).map Prod.fst).nodup_iff.2 h

/-- A record lists its names as they were set. -/
theorem listed_sortedRecord (entries : List (JsString × α)) :
  Listed (sortedRecord r entries)
  := listed_fromEntries _

variable [IsLinearOrder JsString r]

/-- The sorted entries do not depend on the order in which the names were set. -/
theorem sortByName_eq_of_perm {l l' : List (JsString × α)} (hnodup : (l.map Prod.fst).Nodup)
    (h : l.Perm l') :
  sortByName r l = sortByName r l'
  := by
  have total : Std.Total fun p q : JsString × α => r p.1 q.1 :=
    ⟨fun p q => Std.Total.total p.1 q.1⟩
  have trans : IsTrans (JsString × α) fun p q => r p.1 q.1 :=
    ⟨fun p q s => IsTrans.trans p.1 q.1 s.1⟩
  have hperm : (sortByName r l).Perm (sortByName r l') :=
    ((sortByName_perm l).trans h).trans (sortByName_perm l').symm
  apply hperm.eq_of_pairwise _ (List.pairwise_insertionSort _ _) (List.pairwise_insertionSort _ _)
  intro p q hp hq hpq hqp
  have hname : p.1 = q.1 := Std.Antisymm.antisymm p.1 q.1 hpq hqp
  exact List.inj_on_of_nodup_map hnodup ((sortByName_perm l).mem_iff.1 hp)
    (h.mem_iff.2 ((sortByName_perm l').mem_iff.1 hq)) hname

theorem sortedRecord_eq_of_perm {l l' : List (JsString × α)} (hnodup : (l.map Prod.fst).Nodup)
    (h : l.Perm l') :
  sortedRecord r l = sortedRecord r l'
  := by
  rw [sortedRecord, sortedRecord, sortByName_eq_of_perm hnodup h]

/-- A record that is set up again from its own entries. -/
theorem sortedRecord_sortedRecord (h : (entries.map Prod.fst).Nodup) :
  sortedRecord r (sortedRecord r entries) = sortedRecord r entries
  := sortedRecord_eq_of_perm (nodup_sortedRecord h) (sortedRecord_perm h)

end

end OwnOrder
