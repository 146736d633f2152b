import GoLike.Metadata.Snapshot

/-!
# Snapshots as maps

A snapshot is determined by the values of its names. A run of operations is one of a map whose names
are put in lower case, and snapshots are a monoid under merging.
-/

namespace Metadata

open JsString OwnOrder Except

variable {lower : UnicodeLowerCase}

/-- The values of a lower-case name. -/
def Snapshot.lookup (m : Snapshot lower) (name : JsString) : Option (List JsString) :=
  JsMap.lookup name m.entries

/-- A snapshot is determined by the values of its names. -/
theorem Snapshot.ext_lookup {m m' : Snapshot lower} (h : ∀ name, m.lookup name = m'.lookup name) :
  m = m'
  := by
  have hperm : m.entries.Perm m'.entries := by
    apply (List.perm_ext_iff_of_nodup m.nodup.of_map m'.nodup.of_map).2
    rintro ⟨name, stored⟩
    rw [← JsMap.lookup_eq_some m.nodup, ← JsMap.lookup_eq_some m'.nodup]
    exact Eq.congr_left (h name)
  apply Snapshot.ext
  rw [← m.ordered, ← m'.ordered]
  exact sortedRecord_eq_of_perm m.nodup hperm

@[simp]
theorem lookup_freezeBuilder (builder : MetadataBuilder lower) (name : JsString) :
  (freezeBuilder builder).lookup name = builder.entries.get? name
  := JsMap.lookup_perm (freezeBuilder builder).nodup (sortedRecord_perm builder.entries.nodup) name

@[simp]
theorem get?_updateBuilder {builder : MetadataBuilder lower} {key : JsString}
    {values : List JsString} {replace : Bool} {h : Admitted lower (key, values)}
    (name : JsString) :
  (updateBuilder builder key values replace h).entries.get? name =
    if name = key then some (nextValues builder.entries key values replace)
    else builder.entries.get? name
  := JsMap.get?_set ..

theorem get?_setAll (builder : MetadataBuilder lower) (m : Snapshot lower) (name : JsString) :
  (setAll builder m).entries.get? name = (m.lookup name).or (builder.entries.get? name)
  := by
  have hfold : ∀ (l : List { e // e ∈ m.entries }) (builder : MetadataBuilder lower),
      ((l.map Subtype.val).map Prod.fst).Nodup →
      (l.foldl (fun builder e => updateBuilder builder e.val.1 e.val.2 true
        (m.admitted e.val e.property)) builder).entries.get? name =
          (JsMap.lookup name (l.map Subtype.val)).or (builder.entries.get? name) := by
    intro l
    induction l with
    | nil => exact fun _ _ => rfl
    | cons e l ih =>
        intro builder hnodup
        rw [List.map_cons, List.map_cons, List.nodup_cons] at hnodup
        have hfresh : JsMap.lookup e.val.1 (l.map Subtype.val) = none := by
          rw [Option.eq_none_iff_forall_ne_some]
          intro values hvalues
          exact hnodup.1 (List.mem_map.2 ⟨_, (JsMap.lookup_eq_some hnodup.2).1 hvalues, rfl⟩)
        rw [List.foldl_cons, ih _ hnodup.2, get?_updateBuilder]
        grind [JsMap.lookup, nextValues]
  have hentries := List.attach_map_subtype_val m.entries
  rw [setAll, hfold _ _ (by rw [hentries]; exact m.nodup), hentries]
  rfl

@[simp]
theorem get?_builderFromMetadata (m : Snapshot lower) (name : JsString) :
  (builderFromMetadata m).entries.get? name = m.lookup name
  := (get?_setAll newBuilder m name).trans Option.or_none

theorem lookup_merge (m patch : Snapshot lower) (name : JsString) :
  (merge m patch).lookup name = (patch.lookup name).or (m.lookup name)
  := by
  rw [merge, lookup_freezeBuilder, get?_setAll, get?_builderFromMetadata]

theorem clone_eq (m : Snapshot lower) :
  clone m = m
  := Snapshot.ext m.fromEntries_entries

/-! ### Runs of operations -/

/-- What a program does with a snapshot. -/
inductive Operation (lower : UnicodeLowerCase) where
  | append (key : JsString) (value : MetadataValue)
  | set (key value : JsString)
  | remove (key : JsString)
  | merge (patch : Snapshot lower)
  | clone

/-- The result of an operation. -/
def Operation.apply (m : Snapshot lower) : Operation lower → Except Failure (Snapshot lower)
  | .append key value => Metadata.append m key value
  | .set key value => Metadata.set m key value
  | .remove key => Metadata.remove m key
  | .merge patch => .ok (Metadata.merge m patch)
  | .clone => .ok (Metadata.clone m)

def MetadataValue.list : MetadataValue → List JsString
  | .one value => [value]
  | .many values => values

/-- The operation on a map. -/
def Operation.onMap (stored : JsString → Option (List JsString)) :
    Operation lower → JsString → Option (List JsString)
  | .append key value, name =>
      if name = lower.toLowerCase key then some ((stored name).getD [] ++ value.list)
      else stored name
  | .set key value, name => if name = lower.toLowerCase key then some [value] else stored name
  | .remove key, name => if name = lower.toLowerCase key then none else stored name
  | .merge patch, name => (patch.lookup name).or (stored name)
  | .clone, name => stored name

theorem val_of_normalizeKey {key : JsString} {name : { key : JsString // IsKey lower key }}
    (h : normalizeKey lower key = .ok name) :
  name.val = lower.toLowerCase key
  := by
  rw [normalizeKey] at h
  grind

theorem val_of_snapshotValues {value : MetadataValue}
    {values : List { v : JsString // v.isWellFormed = true }}
    (h : snapshotValues value = .ok values) :
  values.map Subtype.val = value.list
  := by
  apply mapM_metadataValue_eq_ok.1
  cases value with
  | one value =>
      rw [← h]
      simp [snapshotValues, MetadataValue.list]
      rfl
  | many values => exact h

/-- One operation on a snapshot is that on its map. -/
theorem lookup_apply {m m' : Snapshot lower} {op : Operation lower} (h : op.apply m = .ok m')
    (name : JsString) :
  m'.lookup name = op.onMap m.lookup name
  := by
  cases op with
  | append key value =>
      obtain ⟨key', hkey, h⟩ := bind_eq_ok_iff.1 h
      obtain ⟨values, hvalues, h⟩ := bind_eq_ok_iff.1 h
      cases h
      simp [Operation.onMap, nextValues, val_of_normalizeKey hkey, val_of_snapshotValues hvalues]
      grind
  | set key value =>
      obtain ⟨key', hkey, h⟩ := bind_eq_ok_iff.1 h
      obtain ⟨v, hv, h⟩ := bind_eq_ok_iff.1 h
      cases h
      have hvalue : v.val = value := by
        rw [metadataValue] at hv
        grind
      simp [Operation.onMap, nextValues, val_of_normalizeKey hkey, hvalue]
  | remove key =>
      obtain ⟨key', hkey, rfl⟩ := map_eq_ok_iff.1 h
      simp [Operation.onMap, MetadataBuilder.delete, val_of_normalizeKey hkey]
  | merge patch =>
      cases h
      exact lookup_merge m patch name
  | clone =>
      cases h
      rw [clone_eq, Operation.onMap]

/-- A run of operations ends with the snapshot of what it does to the map, which is the only one. -/
theorem operations_refine (ops : List (Operation lower)) (m m' : Snapshot lower)
    (h : ops.foldlM Operation.apply m = .ok m') :
  ∀ m'' : Snapshot lower, m''.lookup = ops.foldl Operation.onMap m.lookup ↔ m'' = m'
  := by
  have hlookup : m'.lookup = ops.foldl Operation.onMap m.lookup := by
    induction ops generalizing m with
    | nil =>
        cases h
        rfl
    | cons op ops ih =>
        rw [List.foldlM_cons] at h
        obtain ⟨next, hnext, h⟩ := bind_eq_ok_iff.1 h
        rw [List.foldl_cons, ← funext (lookup_apply hnext)]
        exact ih next h
  intro m''
  constructor
  · exact fun h'' => Snapshot.ext_lookup (congrFun (h''.trans hlookup.symm))
  · rintro rfl
    exact hlookup

/-- A name that is set in one case is found in the other. -/
theorem operations_refine_set :
  ∃ m' : Snapshot UnicodeLowerCase.plain, [.set ⟨[75]⟩ ⟨[118]⟩].foldlM Operation.apply
    (freezeBuilder newBuilder) = .ok m' ∧ m'.lookup ⟨[107]⟩ = some [⟨[118]⟩]
  := ⟨_, rfl, congrFun ((operations_refine [.set ⟨[75]⟩ ⟨[118]⟩] (freezeBuilder newBuilder) _ rfl
    _).2 rfl) _⟩

/-! ### Merging -/

/-- Merging is associative, the empty snapshot is neutral, values that are replaced later leave no
trace, and two snapshots can be swapped exactly when they agree on the names that both have. -/
theorem merge_monoid (m₁ m₂ m₃ : Snapshot lower) :
  merge (merge m₁ m₂) m₃ = merge m₁ (merge m₂ m₃) ∧
  merge m₁ (freezeBuilder newBuilder) = m₁ ∧ merge (freezeBuilder newBuilder) m₁ = m₁ ∧
  merge (merge m₁ m₂) m₁ = merge m₂ m₁ ∧
  (merge m₁ m₂ = merge m₂ m₁ ↔ ∀ name values₁ values₂, m₁.lookup name = some values₁ →
    m₂.lookup name = some values₂ → values₁ = values₂)
  := by
  have hempty : ∀ name, (freezeBuilder (@newBuilder lower)).lookup name = none :=
    lookup_freezeBuilder newBuilder
  refine ⟨Snapshot.ext_lookup ?_, Snapshot.ext_lookup ?_, Snapshot.ext_lookup ?_,
    Snapshot.ext_lookup ?_, ?_, fun h => Snapshot.ext_lookup ?_⟩
  · simp only [lookup_merge, Option.or_assoc, implies_true]
  · simp only [lookup_merge, hempty, Option.none_or, implies_true]
  · simp only [lookup_merge, hempty, Option.or_none, implies_true]
  · intro name
    cases h : m₁.lookup name <;> simp [lookup_merge, h]
  · intro h name values₁ values₂ h₁ h₂
    have hname : (merge m₁ m₂).lookup name = (merge m₂ m₁).lookup name := by rw [h]
    rw [lookup_merge, lookup_merge, h₁, h₂] at hname
    exact (Option.some.inj hname).symm
  · intro name
    have hboth := h name
    rw [lookup_merge, lookup_merge]
    cases h₁ : m₁.lookup name <;> cases h₂ : m₂.lookup name <;> simp_all

end Metadata
