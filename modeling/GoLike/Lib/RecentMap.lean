import GoLike.Lib.JsMap
import Mathlib.Data.Finset.Card
import Mathlib.Data.List.Chain

/-!
# Maps of recent keys

A map of a bounded size remembers the keys that were used last: a key that is used becomes the
newest one, and the oldest key is evicted when there is no place. A key is kept while fewer other
keys are used than the map has places.
-/

variable {κ ν π : Type}

namespace JsMap

/-- The number of keys. -/
def size (m : JsMap κ ν) : ℕ := m.entries.length

/-- Delete the key that was inserted first. -/
def deleteOldest (m : JsMap κ ν) : JsMap κ ν :=
  ⟨m.entries.tail, m.nodup.sublist ((List.tail_sublist _).map Prod.fst)⟩

variable [DecidableEq κ]

variable {k : κ}

theorem put_of_notMem (v : ν) {l : List (κ × ν)} (h : k ∉ l.map Prod.fst) :
  put k v l = l ++ [(k, v)]
  := by
  induction l with
  | nil => rfl
  | cons e l ih =>
      rw [List.map_cons, List.mem_cons, not_or] at h
      rw [put, if_neg (Ne.symm h.1), ih h.2]
      rfl

/-- The entries of other keys. -/
def others (m : JsMap κ ν) (k : κ) : List (κ × ν) := m.entries.filter (fun e => e.1 ≠ k)

theorem notMem_others (m : JsMap κ ν) (k : κ) :
  k ∉ (m.others k).map Prod.fst
  := by
  intro h
  obtain ⟨e, he, hk⟩ := List.mem_map.mp h
  exact absurd hk (of_decide_eq_true (List.mem_filter.mp he).2)

/-- Remember a value as the newest one, evicting the oldest one if there is no place. -/
def remember (limit : ℕ) (m : JsMap κ ν) (k : κ) (v : ν) : JsMap κ ν :=
  let rest := m.delete k
  (if limit ≤ rest.size then rest.deleteOldest else rest).set k v

/-- The entries that are not evicted. -/
def spared (limit : ℕ) (l : List (κ × ν)) : List (κ × ν) :=
  if limit ≤ l.length then l.tail else l

omit [DecidableEq κ] in
theorem spared_sublist (limit : ℕ) (l : List (κ × ν)) :
  (spared limit l).Sublist l
  := by
  rw [spared]
  split
  · exact List.tail_sublist l
  · exact List.Sublist.refl l

theorem entries_remember (limit : ℕ) (m : JsMap κ ν) (k : κ) (v : ν) :
  (m.remember limit k v).entries = spared limit (m.others k) ++ [(k, v)]
  := by
  have hentries : ((if limit ≤ (m.delete k).size then (m.delete k).deleteOldest
      else m.delete k).set k v).entries = put k v (spared limit (m.others k)) := by
    rw [spared]
    split
    · rename_i h
      exact congrArg (put k v) (if_pos h).symm
    · rename_i h
      exact congrArg (put k v) (if_neg h).symm
  rw [remember, hentries, put_of_notMem]
  intro hmem
  exact m.notMem_others k (((spared_sublist limit _).map Prod.fst).subset hmem)

/-- The newest key has its value. -/
@[simp]
theorem get?_remember_self (limit : ℕ) (m : JsMap κ ν) (k : κ) (v : ν) :
  (m.remember limit k v).get? k = some v
  := by
  rw [get?_eq_some, entries_remember]
  exact List.mem_append_right _ (List.mem_singleton_self _)

variable {limit : ℕ} {m : JsMap κ ν}

/-- The map does not grow above its limit. -/
theorem size_remember_le (hlimit : 0 < limit) (h : m.size ≤ limit) (k : κ) (v : ν) :
  (m.remember limit k v).size ≤ limit
  := by
  have hothers : (m.others k).length ≤ limit := (List.length_filter_le _ _).trans h
  rw [size, entries_remember, List.length_append, List.length_singleton, spared]
  split
  · rw [List.length_tail]
    omega
  · omega

/-! ### Sizes and evictions -/

theorem size_delete (m : JsMap κ ν) (k : κ) :
  (m.delete k).size = (m.others k).length
  := rfl

variable {v : ν}

/-- A key that is present is one of the keys. -/
theorem size_delete_of_get? (h : m.get? k = some v) :
  (m.delete k).size + 1 = m.size
  := by
  obtain ⟨before, after, hentries⟩ := List.append_of_mem (get?_eq_some.mp h)
  have hnodup := m.nodup
  rw [hentries, List.map_append, List.map_cons] at hnodup
  obtain ⟨_, hafter, hdisjoint⟩ := List.nodup_append.mp hnodup
  have hothers : m.others k = before ++ after := by
    rw [others, hentries, List.filter_append, List.filter_cons, if_neg (by simp)]
    congr 1
    · rw [List.filter_eq_self]
      intro e he
      exact decide_eq_true (hdisjoint _ (List.mem_map_of_mem he) _ List.mem_cons_self)
    · rw [List.filter_eq_self]
      intro e he
      apply decide_eq_true
      rintro rfl
      exact (List.nodup_cons.mp hafter).1 (List.mem_map.mpr ⟨e, he, rfl⟩)
  rw [size_delete, hothers, size, hentries, List.length_append, List.length_append,
    List.length_cons]
  omega

theorem size_set_of_not (h : m.get? k = none) (v : ν) :
  (m.set k v).size = m.size + 1
  := by
  have hdelete := size_delete_of_get? (m := m.set k v) (k := k) (v := v)
    (by rw [get?_set, if_pos rfl])
  rw [← hdelete, delete_set_of_get? v h]

theorem size_remember (limit : ℕ) (m : JsMap κ ν) (k : κ) (v : ν) :
  (m.remember limit k v).size =
    if limit ≤ (m.delete k).size then (m.delete k).size - 1 + 1 else (m.delete k).size + 1
  := by
  rw [size_delete, size, entries_remember, List.length_append, List.length_singleton, spared]
  split
  · rw [List.length_tail]
  · rfl

variable {k' : κ}

theorem get?_of_remember {v' : ν} (hne : k' ≠ k) (h : (m.remember limit k v).get? k' = some v') :
  m.get? k' = some v'
  := by
  rw [get?_eq_some, entries_remember, List.mem_append, List.mem_singleton] at h
  obtain h | h := h
  · exact get?_eq_some.mpr (List.mem_of_mem_filter ((spared_sublist limit _).subset h))
  · exact absurd (congrArg Prod.fst h) hne

/-- Another key is kept, or evicted because there is no place. -/
theorem get?_remember_of_ne {v' : ν} (hne : k' ≠ k) (h : m.get? k' = some v') (v : ν) :
  (m.remember limit k v).get? k' = some v' ∨
    (m.remember limit k v).get? k' = none ∧ limit ≤ (m.delete k).size
  := by
  by_cases hfull : limit ≤ (m.delete k).size
  · match hget : (m.remember limit k v).get? k' with
    | none => exact .inr ⟨rfl, hfull⟩
    | some v'' =>
        have hold := get?_of_remember hne hget
        rw [h] at hold
        exact .inl hold.symm
  · left
    rw [size_delete] at hfull
    rw [get?_eq_some, entries_remember, spared, if_neg hfull]
    apply List.mem_append_left
    exact List.mem_filter.mpr ⟨get?_eq_some.mp h, decide_eq_true hne⟩

/-! ### Keys that are kept -/

/-- A key has its value, and the keys that are newer are among the given ones. -/
def Retains (m : JsMap κ ν) (k : κ) (v : ν) (newer : Finset κ) : Prop :=
  ∃ before after, m.entries = before ++ (k, v) :: after ∧ ∀ e ∈ after, e.1 ∈ newer

theorem retains_remember (limit : ℕ) (m : JsMap κ ν) (k : κ) (v : ν) :
  (m.remember limit k v).Retains k v ∅
  := ⟨spared limit (m.others k), [], entries_remember limit m k v,
    fun _ he => absurd he List.not_mem_nil⟩

variable {newer : Finset κ}

theorem Retains.get? (h : m.Retains k v newer) :
  m.get? k = some v
  := by
  obtain ⟨before, after, hentries, _⟩ := h
  rw [get?_eq_some, hentries]
  exact List.mem_append_right _ List.mem_cons_self

/-- A key is kept while there is place for the keys that are newer. -/
theorem Retains.remember (h : m.Retains k v newer) (hk : k' ≠ k) (v' : ν)
    (hfew : (insert k' newer).card < limit) :
  (m.remember limit k' v').Retains k v (insert k' newer)
  := by
  obtain ⟨before, after, hentries, hnewer⟩ := h
  let p : κ × ν → Bool := fun e => e.1 ≠ k'
  have hothers : m.others k' = before.filter p ++ (k, v) :: after.filter p := by
    rw [others, hentries, List.filter_append, List.filter_cons, if_pos (by simpa using hk.symm)]
  have hafter : ∀ e ∈ after.filter p ++ [(k', v')], e.1 ∈ insert k' newer := by
    intro e he
    obtain he | he := List.mem_append.mp he
    · exact Finset.mem_insert_of_mem (hnewer e (List.mem_filter.mp he).1)
    · rw [List.mem_singleton.mp he]
      exact Finset.mem_insert_self _ _
  rw [Retains, entries_remember, hothers]
  match hbefore : before.filter p with
  | [] =>
      -- all the keys of the map are newer, so there is still place for one more
      have hkeys : ((after.filter p ++ [(k', v')]).map Prod.fst).Nodup := by
        have hnodup : ((m.others k').map Prod.fst).Nodup := (m.delete k').nodup
        have hnew := m.notMem_others k'
        rw [hothers, hbefore, List.nil_append, List.map_cons] at hnodup hnew
        rw [List.map_append, List.map_singleton]
        apply (List.nodup_cons.mp hnodup).2.append (List.nodup_singleton k')
        rw [List.disjoint_singleton]
        exact fun hmem => hnew (List.mem_cons_of_mem _ hmem)
      have hcard : (after.filter p).length + 1 ≤ (insert k' newer).card := by
        calc (after.filter p).length + 1
          _ = ((after.filter p ++ [(k', v')]).map Prod.fst).length := by
            rw [List.length_map, List.length_append, List.length_singleton]
          _ = ((after.filter p ++ [(k', v')]).map Prod.fst).toFinset.card :=
            (List.toFinset_card_of_nodup hkeys).symm
          _ ≤ (insert k' newer).card := by
            apply Finset.card_le_card
            intro key hkey
            obtain ⟨e, he, rfl⟩ := List.mem_map.mp (List.mem_toFinset.mp hkey)
            exact hafter e he
      have hspared : spared limit ([] ++ (k, v) :: after.filter p) = (k, v) :: after.filter p := by
        rw [spared, if_neg]
        · rfl
        · rw [List.nil_append, List.length_cons]
          omega
      rw [hspared]
      exact ⟨[], _, rfl, hafter⟩
  | e :: rest =>
      rw [spared]
      split
      · exact ⟨rest, after.filter p ++ [(k', v')], List.append_assoc _ _ _, hafter⟩
      · exact ⟨e :: rest, after.filter p ++ [(k', v')], List.append_assoc _ _ _, hafter⟩

omit [DecidableEq κ] in
theorem Retains.unchanged {more : Finset κ} (h : m.Retains k v newer) (hle : newer ⊆ more) :
  m.Retains k v more
  := by
  obtain ⟨before, after, hentries, hnewer⟩ := h
  exact ⟨before, after, hentries, fun e he => hle (hnewer e he)⟩

end JsMap

/-! ### Visits

What is picked at a visit of a key, and what is remembered for it, depends on what was remembered.
-/

/-- A visit of a key. -/
structure Visit (κ ν π : Type) where
  key : κ
  next : Option ν → π × ν

/-- What has been picked at a visit, and what is remembered. -/
structure Turn (κ ν π : Type) where
  visit : Visit κ ν π
  picked : π
  cursor : ν

/-- The turn saw what is given. -/
def Turn.Sees (t : Turn κ ν π) (o : Option ν) : Prop := t.visit.next o = (t.picked, t.cursor)

/-- Keys that are the given one stand near one another: fewer others than the limit are between
them. -/
def Frequent [DecidableEq κ] (limit : ℕ) (k : κ) (keys : List κ) : Prop :=
  ∀ before between after, keys = before ++ k :: (between ++ k :: after) → k ∉ between →
    between.toFinset.card < limit

theorem Frequent.map [DecidableEq κ] {ρ : Type} [DecidableEq ρ] {limit : ℕ} {f : κ → ρ}
    (hf : Function.Injective f) {k : κ} {keys : List κ} (h : Frequent limit k keys) :
  Frequent limit (f k) (keys.map f)
  := by
  intro before between after heq hnot
  obtain ⟨before', rest, rfl, rfl, hrest⟩ := List.map_eq_append_iff.mp heq
  obtain ⟨k', others, rfl, hk', hothers⟩ := List.map_eq_cons_iff.mp hrest
  obtain ⟨between', last, rfl, rfl, hlast⟩ := List.map_eq_append_iff.mp hothers
  obtain ⟨l, after', rfl, hl, rfl⟩ := List.map_eq_cons_iff.mp hlast
  obtain rfl := hf hk'
  obtain rfl := hf hl
  have hcard := h before' between' after' rfl (fun hmem => hnot (List.mem_map_of_mem hmem))
  have hsubset : (between'.map f).toFinset ⊆ between'.toFinset.image f := by
    intro l hl
    obtain ⟨k, hk, rfl⟩ := List.mem_map.mp (List.mem_toFinset.mp hl)
    exact Finset.mem_image_of_mem f (List.mem_toFinset.mpr hk)
  exact ((Finset.card_le_card hsubset).trans Finset.card_image_le).trans_lt hcard

theorem frequent_of_forall [DecidableEq κ] {limit : ℕ} (hlimit : 0 < limit) {k : κ}
    {keys : List κ} (h : ∀ key ∈ keys, key = k) :
  Frequent limit k keys
  := by
  intro before between after heq hnot
  match between with
  | [] => exact hlimit
  | key :: between =>
      have hkey : key = k := h key (by rw [heq]; simp)
      exact absurd (hkey ▸ List.mem_cons_self) hnot

namespace JsMap

variable [DecidableEq κ]

/-- The turn of a visit. -/
def turn (m : JsMap κ ν) (x : Visit κ ν π) : Turn κ ν π :=
  ⟨x, (x.next (m.get? x.key)).1, (x.next (m.get? x.key)).2⟩

/-- The map after a turn. -/
def afterTurn (limit : ℕ) (m : JsMap κ ν) (t : Turn κ ν π) : JsMap κ ν :=
  m.remember limit t.visit.key t.cursor

/-- The turns of visits. -/
def turns (limit : ℕ) (m : JsMap κ ν) : List (Visit κ ν π) → List (Turn κ ν π)
  | [] => []
  | x :: xs => m.turn x :: turns limit (m.afterTurn limit (m.turn x)) xs

/-- The map after turns. -/
def afterTurns (limit : ℕ) (m : JsMap κ ν) (ts : List (Turn κ ν π)) : JsMap κ ν :=
  ts.foldl (afterTurn limit) m

variable {limit : ℕ} {m : JsMap κ ν}

theorem keys_turns (xs : List (Visit κ ν π)) :
  (m.turns limit xs).map (fun t => t.visit.key) = xs.map Visit.key
  := by
  induction xs generalizing m with
  | nil => rfl
  | cons x xs ih => rw [turns, List.map_cons, List.map_cons, ih, turn]

theorem turn_sees (x : Visit κ ν π) :
  (m.turn x).Sees (m.get? x.key)
  := rfl

variable {xs : List (Visit κ ν π)}

theorem mem_turns {t : Turn κ ν π} (h : t ∈ m.turns limit xs) :
  t.visit ∈ xs ∧ ∃ o, t.Sees o
  := by
  induction xs generalizing m with
  | nil => exact absurd h List.not_mem_nil
  | cons x xs ih =>
      obtain rfl | h := List.mem_cons.mp h
      · exact ⟨List.mem_cons_self, _, turn_sees x⟩
      · obtain ⟨hvisit, hsees⟩ := ih h
        exact ⟨List.mem_cons_of_mem _ hvisit, hsees⟩

/-- Turns that follow others start from the map after these. -/
theorem turns_append {before after : List (Turn κ ν π)} (h : m.turns limit xs = before ++ after) :
  ∃ ys, (m.afterTurns limit before).turns limit ys = after
  := by
  induction before generalizing m xs with
  | nil => exact ⟨xs, h⟩
  | cons t before ih =>
      match xs with
      | [] => exact absurd h (by rintro ⟨⟩)
      | x :: xs =>
          rw [turns, List.cons_append, List.cons.injEq] at h
          obtain ⟨rfl, hrest⟩ := h
          exact ih hrest

/-- The map does not grow above its limit. -/
theorem size_afterTurns_le (hlimit : 0 < limit) (h : m.size ≤ limit) (ts : List (Turn κ ν π)) :
  (m.afterTurns limit ts).size ≤ limit
  := by
  induction ts generalizing m with
  | nil => exact h
  | cons t ts ih => exact ih (size_remember_le hlimit h _ _)

variable {ts : List (Turn κ ν π)}

/-- The newest keys are those of the last turns, when these have different keys. -/
theorem keys_afterTurns (hnodup : (ts.map (fun t => t.visit.key)).Nodup)
    (hlength : ts.length ≤ limit) :
  ∃ older, (m.afterTurns limit ts).entries.map Prod.fst = older ++ ts.map (fun t => t.visit.key)
  := by
  induction ts using List.reverseRecOn with
  | nil => exact ⟨m.entries.map Prod.fst, (List.append_nil _).symm⟩
  | append_singleton ts t ih =>
      rw [List.map_append, List.map_singleton] at hnodup ⊢
      rw [List.length_append, List.length_singleton] at hlength
      obtain ⟨hts, _, hnew⟩ := List.nodup_append.mp hnodup
      obtain ⟨older, holder⟩ := ih hts (by omega)
      have hothers : ((m.afterTurns limit ts).others t.visit.key).map Prod.fst =
          older.filter (fun k => k ≠ t.visit.key) ++ ts.map (fun t => t.visit.key) := by
        have hfilter : ((m.afterTurns limit ts).others t.visit.key).map Prod.fst =
            ((m.afterTurns limit ts).entries.map Prod.fst).filter (fun k => k ≠ t.visit.key) := by
          rw [others, List.filter_map]
          rfl
        have hkeep : (ts.map (fun t => t.visit.key)).filter (fun k => k ≠ t.visit.key) =
            ts.map (fun t => t.visit.key) := by
          rw [List.filter_eq_self]
          intro k hk
          exact decide_eq_true (hnew k hk _ (List.mem_singleton_self _))
        rw [hfilter, holder, List.filter_append, hkeep]
      have hstep : m.afterTurns limit (ts ++ [t]) =
          (m.afterTurns limit ts).remember limit t.visit.key t.cursor := by
        rw [afterTurns, List.foldl_append]
        rfl
      have hspared : ∃ older', (spared limit ((m.afterTurns limit ts).others t.visit.key)).map
          Prod.fst = older' ++ ts.map (fun t => t.visit.key) := by
        rw [spared]
        split
        · rename_i hfull
          rw [List.map_tail, hothers]
          match hrest : older.filter (fun k => k ≠ t.visit.key) with
          | [] =>
              have hsame := congrArg List.length hothers
              rw [hrest, List.nil_append, List.length_map, List.length_map] at hsame
              omega
          | k :: rest => exact ⟨rest, rfl⟩
        · exact ⟨_, hothers⟩
      obtain ⟨older', hkeys⟩ := hspared
      rw [hstep, entries_remember, List.map_append, List.map_singleton, hkeys]
      exact ⟨older', List.append_assoc _ _ _⟩

variable {k : κ}

/-- A key is evicted by turns of as many other keys as the map has places. -/
theorem get?_evicted (hlimit : 0 < limit) (hsize : m.size ≤ limit)
    (hnodup : (ts.map (fun t => t.visit.key)).Nodup) (hlength : ts.length = limit)
    (hk : k ∉ ts.map (fun t => t.visit.key)) :
  (m.afterTurns limit ts).get? k = none
  := by
  obtain ⟨older, hkeys⟩ := keys_afterTurns (m := m) hnodup hlength.le
  have hle := size_afterTurns_le hlimit hsize ts
  have hcount := congrArg List.length hkeys
  rw [List.length_map, List.length_append, List.length_map] at hcount
  have hempty : older = [] := by
    apply List.length_eq_zero_iff.mp
    rw [size] at hle
    omega
  rw [hempty, List.nil_append] at hkeys
  rw [get?_eq_none]
  intro v hv
  apply hk
  rw [← hkeys]
  exact List.mem_map_of_mem hv

/-- A key is kept during turns of other keys, when they are few. -/
theorem Retains.afterTurns {v : ν} {newer : Finset κ} (h : m.Retains k v newer)
    (hother : ∀ t ∈ ts, t.visit.key ≠ k)
    (hfew : ((ts.map (fun t => t.visit.key)).toFinset ∪ newer).card < limit) :
  (m.afterTurns limit ts).Retains k v ((ts.map (fun t => t.visit.key)).toFinset ∪ newer)
  := by
  induction ts generalizing m newer with
  | nil => exact h.unchanged Finset.subset_union_right
  | cons t ts ih =>
      have hunion : ((t :: ts).map (fun t => t.visit.key)).toFinset ∪ newer =
          (ts.map (fun t => t.visit.key)).toFinset ∪ insert t.visit.key newer := by
        rw [List.map_cons, List.toFinset_cons, Finset.insert_union, Finset.union_insert]
      rw [hunion] at hfew ⊢
      have hturn := h.remember (hother t List.mem_cons_self) t.cursor
        ((Finset.card_le_card Finset.subset_union_right).trans_lt hfew)
      exact ih hturn (fun t' ht' => hother t' (List.mem_cons_of_mem _ ht')) hfew

/-- A turn of a key sees what the turn before it has remembered. -/
theorem turns_sees {before between after : List (Turn κ ν π)} {a b : Turn κ ν π}
    (h : m.turns limit xs = before ++ a :: (between ++ b :: after)) (ha : a.visit.key = k)
    (hb : b.visit.key = k) (hbetween : ∀ t ∈ between, t.visit.key ≠ k)
    (hfew : (between.map (fun t => t.visit.key)).toFinset.card < limit) :
  b.Sees (some a.cursor)
  := by
  obtain ⟨ys, hys⟩ := turns_append h
  have hcons : before ++ a :: (between ++ b :: after) =
      (before ++ a :: between) ++ b :: after := by
    rw [List.append_assoc, List.cons_append]
  rw [hcons] at h
  obtain ⟨zs, hzs⟩ := turns_append h
  have hmap : m.afterTurns limit (before ++ a :: between) =
      ((m.afterTurns limit before).afterTurn limit a).afterTurns limit between := by
    rw [afterTurns, List.foldl_append]
    rfl
  have hretains : ((m.afterTurns limit before).afterTurn limit a).Retains k a.cursor ∅ := by
    rw [afterTurn, ha]
    exact retains_remember _ _ _ _
  have hkept := hretains.afterTurns hbetween (by rw [Finset.union_empty]; exact hfew)
  rw [← hmap] at hkept
  match zs with
  | [] => exact absurd hzs (by rintro ⟨⟩)
  | z :: zs =>
      rw [turns, List.cons.injEq] at hzs
      have hvisit : z = b.visit := congrArg Turn.visit hzs.1
      have hsees : b.Sees ((m.afterTurns limit (before ++ a :: between)).get? z.key) := by
        rw [← hzs.1]
        exact turn_sees z
      rw [hvisit, hb, hkept.get?] at hsees
      exact hsees

/-- The turns of a key that stands near itself see one another. -/
theorem isChain_turns (h : Frequent limit k (xs.map Visit.key)) :
  ((m.turns limit xs).filter (fun t => t.visit.key = k)).IsChain
    (fun a b => b.Sees (some a.cursor))
  := by
  rw [List.isChain_iff_forall_rel_of_append_cons_cons]
  intro a b l l' hfilter
  obtain ⟨before, rest, hturns, _, hrest⟩ := List.filter_eq_append_iff.mp hfilter
  obtain ⟨skipped, others, rfl, _, ha, hothers⟩ := List.filter_eq_cons_iff.mp hrest
  obtain ⟨between, after, rfl, hbetween, hb, _⟩ := List.filter_eq_cons_iff.mp hothers
  have hother : ∀ t ∈ between, t.visit.key ≠ k := fun t ht => by simpa using hbetween t ht
  rw [← List.append_assoc] at hturns
  have hkeys : xs.map Visit.key =
      (before ++ skipped).map (fun t => t.visit.key) ++
        k :: (between.map (fun t => t.visit.key) ++ k :: after.map (fun t => t.visit.key)) := by
    rw [← keys_turns, hturns]
    simp only [List.map_append, List.map_cons]
    rw [of_decide_eq_true ha, of_decide_eq_true hb]
  have hnot : k ∉ between.map (fun t => t.visit.key) := by
    intro hmem
    obtain ⟨t, ht, hkey⟩ := List.mem_map.mp hmem
    exact hother t ht hkey
  exact turns_sees hturns (of_decide_eq_true ha) (of_decide_eq_true hb) hother
    (h _ _ _ hkeys hnot)

end JsMap
