import GoLike.Lib.Ascii
import GoLike.Lib.Fallible
import GoLike.Lib.OwnObject

/-!
# Metadata snapshots

A snapshot is a record of lower-case names with ordered values. It is always set up from a
builder, a map from names to values, whose names are sorted by their code units first; the record
then lists the names that are array indices before the others. Every operation returns a snapshot
again, and a snapshot that is taken as the input of a new one is copied.
-/

namespace JsString

/-- What maps strings to lower case: the characters of a lower-case string stay as they are, and a
character is mapped to one or more. -/
structure UnicodeLowerCase extends mapping : LowerCase where
  idempotent : ∀ s, toLowerCase (toLowerCase s) = toLowerCase s
  isWellFormed : ∀ s, s.isWellFormed = true → (toLowerCase s).isWellFormed = true
  isEmpty : ∀ s, s.isEmpty = false → (toLowerCase s).isEmpty = false

theorem lowerUnit_lowerUnit (u : UInt16) :
  lowerUnit (lowerUnit u) = lowerUnit u
  := by
  unfold lowerUnit
  split
  · rename_i h
    rw [if_neg]
    rintro ⟨-, hle⟩
    have hlower : 65 ≤ u.toNat := h.1
    have hupper : u.toNat ≤ 90 := h.2
    have hsum : (u + 32).toNat ≤ 90 := hle
    rw [UInt16.toNat_add] at hsum
    simp only [UInt16.reduceToNat] at hsum
    omega
  · rfl

theorem lowerUnit_surrogate (u : UInt16) :
  isHigh (lowerUnit u) = isHigh u ∧ isLow (lowerUnit u) = isLow u
  := by
  unfold lowerUnit
  split
  · rename_i h
    have hlower : 65 ≤ u.toNat := h.1
    have hupper : u.toNat ≤ 90 := h.2
    have hsum : (u + 32).toNat = u.toNat + 32 := by
      rw [UInt16.toNat_add]
      simp only [UInt16.reduceToNat]
      omega
    constructor
    · rw [isHigh, isHigh, hsum]
      grind
    · rw [isLow, isLow, hsum]
      grind
  · exact ⟨rfl, rfl⟩

theorem wellFormedUnits_lower (us : List UInt16) :
  wellFormedUnits (us.map lowerUnit) = wellFormedUnits us
  := by
  induction us using wellFormedUnits.induct with
  | case1 => rfl
  | case2 u =>
      simp only [List.map_cons, List.map_nil, wellFormedUnits, lowerUnit_surrogate u]
  | case3 u v rest hpair ih =>
      simp only [List.map_cons, wellFormedUnits, lowerUnit_surrogate, hpair, if_true, ih]
  | case4 u v rest hpair ih =>
      rw [List.map_cons] at ih
      simp only [List.map_cons, wellFormedUnits, lowerUnit_surrogate, hpair, ih,
        Bool.false_eq_true, if_false]

/-- The mapping of ASCII strings, which leaves the other characters as they are. -/
def UnicodeLowerCase.plain : UnicodeLowerCase where
  toLowerCase := LowerCase.plain.toLowerCase
  ascii := LowerCase.plain.ascii
  other := LowerCase.plain.other
  idempotent := by
    rintro ⟨us⟩
    simp only [LowerCase.plain, lowerAscii, List.map_map]
    congr 1
    apply List.map_congr_left
    intro u _
    exact lowerUnit_lowerUnit u
  isWellFormed s h := by
    exact (wellFormedUnits_lower s.units).trans h
  isEmpty s h := by
    obtain ⟨us⟩ := s
    cases us with
    | nil => cases h
    | cons u us => rfl

end JsString

namespace Metadata

open JsString OwnOrder Except

/-- Why a call throws. -/
inductive Failure where
  | typeError (message : String)
  | rangeError (message : String)
  | uriError
  | syntaxError
  | transportProtocolError (message : String)
  deriving DecidableEq

/-- One value, or ordered values. -/
inductive MetadataValue where
  | one (value : JsString)
  | many (values : List JsString)

variable (lower : UnicodeLowerCase)

/-- A name in lower case. -/
structure IsKey (key : JsString) : Prop where
  nonempty : key.isEmpty = false
  wellFormed : key.isWellFormed = true
  lowerCase : lower.toLowerCase key = key

/-- A name with its values. -/
structure Admitted (e : JsString × List JsString) : Prop where
  key : IsKey lower e.1
  values : ∀ v ∈ e.2, v.isWellFormed = true

/-- Check a name and put it in lower case. -/
def normalizeKey (value : JsString) : Except Failure { key : JsString // IsKey lower key } :=
  if h : value.isEmpty = false ∧ value.isWellFormed = true then
    .ok ⟨lower.toLowerCase value, lower.isEmpty value h.1, lower.isWellFormed value h.2,
      lower.idempotent value⟩
  else .error (.typeError "metadata key must be a non-empty well-formed string")

/-- Check a value. -/
def metadataValue (value : JsString) : Except Failure { v : JsString // v.isWellFormed = true } :=
  if h : value.isWellFormed = true then .ok ⟨value, h⟩
  else .error (.typeError "metadata value must be a well-formed string")

/-- Check one value or each of several. -/
def snapshotValues (value : MetadataValue) :
    Except Failure (List { v : JsString // v.isWellFormed = true }) :=
  match value with
  | .one value => (metadataValue value).map fun v => [v]
  | .many values => values.mapM metadataValue

/-! ### Builders -/

/-- The names and values of a snapshot that is set up. -/
structure MetadataBuilder where
  entries : JsMap JsString (List JsString)
  admitted : ∀ e ∈ entries.entries, Admitted lower e

variable {lower}

/-- The builder without entries. -/
def newBuilder : MetadataBuilder lower := ⟨JsMap.empty, fun _ h => nomatch h⟩

theorem mem_put {l : List (JsString × List JsString)} {k : JsString} {v : List JsString}
    {e : JsString × List JsString} (h : e ∈ JsMap.put k v l) :
  e = (k, v) ∨ e ∈ l
  := by
  induction l with
  | nil => exact .inl (List.mem_singleton.1 h)
  | cons p l ih =>
      obtain ⟨k', w⟩ := p
      rw [JsMap.put] at h
      split at h
      · exact (List.mem_cons.1 h).imp_right (List.mem_cons_of_mem _)
      · obtain hfirst | hrest := List.mem_cons.1 h
        · exact .inr (List.mem_cons.2 (.inl hfirst))
        · exact (ih hrest).imp_right (List.mem_cons_of_mem _)

/-- The values of a name after some were added, or after all were replaced. -/
def nextValues (entries : JsMap JsString (List JsString)) (key : JsString)
    (values : List JsString) (replace : Bool) : List JsString :=
  (if replace then [] else (entries.get? key).getD []) ++ values

/-- Add or replace an entry. -/
def updateBuilder (builder : MetadataBuilder lower) (key : JsString) (values : List JsString)
    (replace : Bool) (h : Admitted lower (key, values)) : MetadataBuilder lower where
  entries := builder.entries.set key (nextValues builder.entries key values replace)
  admitted := by
    intro e he
    obtain rfl | he := mem_put he
    · refine ⟨h.key, ?_⟩
      intro v hv
      obtain hold | hnew := List.mem_append.1 hv
      · cases replace with
        | true => cases hold
        | false =>
            cases hget : builder.entries.get? key with
            | none =>
                rw [hget] at hold
                cases hold
            | some current =>
                rw [hget] at hold
                exact (builder.admitted _ (JsMap.get?_eq_some.1 hget)).values v hold
      · exact h.values v hnew
    · exact builder.admitted e he

/-- Delete an entry. -/
def MetadataBuilder.delete (builder : MetadataBuilder lower) (key : JsString) :
    MetadataBuilder lower where
  entries := builder.entries.delete key
  admitted _ he := builder.admitted _ (List.mem_of_mem_filter he)

/-! ### Snapshots -/

/-- Names are compared by their code units. -/
def UnitsLe (left right : JsString) : Prop := left.units ≤ right.units

instance : DecidableRel UnitsLe := fun left right =>
  inferInstanceAs (Decidable (left.units ≤ right.units))

instance : IsLinearOrder JsString UnitsLe where
  refl left := List.le_refl left.units
  trans _ _ _ := List.le_trans
  antisymm left right h h' := by
    have hunits := List.le_antisymm h h'
    cases left
    cases right
    exact congrArg JsString.mk hunits
  total left right := List.le_total left.units right.units

/-- The entries of the record that is set up from entries with distinct names. -/
def frozenEntries (entries : List (JsString × List JsString)) : List (JsString × List JsString) :=
  sortedRecord UnitsLe entries

/-- A snapshot, with its entries in the order in which the record lists them. -/
@[ext]
structure Snapshot (lower : UnicodeLowerCase) where
  entries : List (JsString × List JsString)
  nodup : (entries.map Prod.fst).Nodup
  ordered : frozenEntries entries = entries
  admitted : ∀ e ∈ entries, Admitted lower e

/-- Set up the snapshot of a builder. -/
def freezeBuilder (builder : MetadataBuilder lower) : Snapshot lower where
  entries := frozenEntries builder.entries.entries
  nodup := nodup_sortedRecord builder.entries.nodup
  ordered := sortedRecord_sortedRecord builder.entries.nodup
  admitted e he := builder.admitted e ((sortedRecord_perm builder.entries.nodup).mem_iff.1 he)

/-- The record of a snapshot lists its names as they were set. -/
theorem Snapshot.fromEntries_entries (m : Snapshot lower) :
  fromEntries m.entries = m.entries
  := by
  rw [← m.ordered]
  exact (listed_sortedRecord m.entries).fromEntries

/-- Set the entries of a snapshot in a builder. -/
def setAll (builder : MetadataBuilder lower) (m : Snapshot lower) : MetadataBuilder lower :=
  m.entries.attach.foldl (fun builder e =>
    updateBuilder builder e.val.1 e.val.2 true (m.admitted e.val e.property)) builder

/-- The builder of a snapshot. -/
def builderFromMetadata (m : Snapshot lower) : MetadataBuilder lower := setAll newBuilder m

variable (lower)

/-- Add a property of an input to a builder. -/
def addProperty (builder : MetadataBuilder lower) (p : JsString × MetadataValue) :
    Except Failure (MetadataBuilder lower) := do
  let key ← normalizeKey lower p.1
  let values ← snapshotValues p.2
  .ok (updateBuilder builder key.val (values.map Subtype.val) false
    ⟨key.property, fun v hv => by
      obtain ⟨w, -, rfl⟩ := List.mem_map.1 hv
      exact w.property⟩)

/-- The builder of an input, the values of names that become the same one after the other. -/
def builderFromInput (input : List (JsString × MetadataValue)) :
    Except Failure (MetadataBuilder lower) :=
  input.foldlM (addProperty lower) newBuilder

/-- A new snapshot. -/
def newMetadata (input : List (JsString × MetadataValue)) : Except Failure (Snapshot lower) :=
  (builderFromInput lower input).map freezeBuilder

variable {lower}

/-- A copy of a snapshot. -/
def clone (m : Snapshot lower) : Snapshot lower where
  entries := fromEntries m.entries
  nodup := by
    rw [m.fromEntries_entries]
    exact m.nodup
  ordered := by
    rw [m.fromEntries_entries]
    exact m.ordered
  admitted := by
    rw [m.fromEntries_entries]
    exact m.admitted

/-- The names of a snapshot. -/
def keys (m : Snapshot lower) : List JsString := m.entries.map Prod.fst

/-- The values of a name; none when it is absent. -/
def values (m : Snapshot lower) (key : JsString) : Except Failure (List JsString) :=
  (normalizeKey lower key).map fun name => (JsMap.lookup name.val m.entries).getD []

/-- The first value of a name. -/
def get (m : Snapshot lower) (key : JsString) : Except Failure (Option JsString) :=
  (values m key).map List.head?

/-- Add values to a name. -/
def append (m : Snapshot lower) (key : JsString) (value : MetadataValue) :
    Except Failure (Snapshot lower) := do
  let name ← normalizeKey lower key
  let values ← snapshotValues value
  .ok (freezeBuilder (updateBuilder (builderFromMetadata m) name.val (values.map Subtype.val) false
    ⟨name.property, fun v hv => by
      obtain ⟨w, -, rfl⟩ := List.mem_map.1 hv
      exact w.property⟩))

/-- Set the only value of a name. -/
def set (m : Snapshot lower) (key value : JsString) : Except Failure (Snapshot lower) := do
  let name ← normalizeKey lower key
  let value ← metadataValue value
  .ok (freezeBuilder (updateBuilder (builderFromMetadata m) name.val [value.val] true
    ⟨name.property, fun v hv => by
      rw [List.mem_singleton.1 hv]
      exact value.property⟩))

/-- Remove a name. -/
def remove (m : Snapshot lower) (key : JsString) : Except Failure (Snapshot lower) :=
  (normalizeKey lower key).map fun name =>
    freezeBuilder ((builderFromMetadata m).delete name.val)

/-- Replace the values of the names of another snapshot. -/
def merge (m patch : Snapshot lower) : Snapshot lower :=
  freezeBuilder (setAll (builderFromMetadata m) patch)

/-! ### Snapshots from their entries -/

theorem normalizeKey_of_isKey {key : JsString} (h : IsKey lower key) :
  normalizeKey lower key = .ok ⟨key, h⟩
  := by
  rw [normalizeKey, dif_pos ⟨h.nonempty, h.wellFormed⟩]
  congr 1
  exact Subtype.ext h.lowerCase

/-- Values that are checked one after the other. -/
theorem mapM_metadataValue_eq_ok {values : List JsString}
    {checked : List { v : JsString // v.isWellFormed = true }} :
  values.mapM metadataValue = .ok checked ↔ checked.map Subtype.val = values
  := by
  induction values generalizing checked with
  | nil =>
      rw [List.mapM_nil, List.map_eq_nil_iff]
      exact ⟨fun h => (ok.inj h).symm, fun h => congrArg ok h.symm⟩
  | cons v values ih =>
      rw [List.mapM_cons, bind_eq_ok_iff]
      constructor
      · rintro ⟨w, hw, h⟩
        obtain ⟨rest, hrest, h⟩ := bind_eq_ok_iff.1 h
        cases h
        rw [metadataValue] at hw
        split at hw
        · cases hw
          rw [List.map_cons, ih.1 hrest]
        · cases hw
      · intro h
        cases checked with
        | nil => cases h
        | cons w checked =>
            rw [List.map_cons, List.cons.injEq] at h
            obtain ⟨rfl, hrest⟩ := h
            refine ⟨w, dif_pos w.property, ?_⟩
            rw [ih.2 hrest]
            rfl

/-- The entry as a property of an input. -/
def inputOf (e : JsString × List JsString) : JsString × MetadataValue := (e.1, .many e.2)

theorem MetadataBuilder.ext_entries {builder builder' : MetadataBuilder lower}
    (h : builder.entries.entries = builder'.entries.entries) :
  builder = builder'
  := by
  cases builder
  cases builder'
  congr 1
  exact JsMap.ext_entries h

/-- A name that is not set yet is set behind the others. -/
theorem entries_updateBuilder {builder : MetadataBuilder lower} {key : JsString}
    (hnew : key ∉ builder.entries.entries.map Prod.fst) (values : List JsString)
    (h : Admitted lower (key, values)) :
  (updateBuilder builder key values false h).entries.entries =
    builder.entries.entries ++ [(key, values)]
  := by
  have hget : builder.entries.get? key = none := by
    apply JsMap.get?_eq_none.2
    intro v hv
    exact hnew (List.mem_map.2 ⟨(key, v), hv, rfl⟩)
  have hnext : nextValues builder.entries key values false = values := by
    rw [nextValues, hget]
    rfl
  calc (updateBuilder builder key values false h).entries.entries
      = builder.entries.entries ++ [(key, nextValues builder.entries key values false)] :=
        put_of_notMem hnew _
    _ = builder.entries.entries ++ [(key, values)] := by rw [hnext]

/-- A lower-case name that is not set yet is added with its values. -/
theorem addProperty_eq_ok {builder builder' : MetadataBuilder lower} {key : JsString}
    {values : List JsString} (hlower : lower.toLowerCase key = key)
    (hnew : key ∉ builder.entries.entries.map Prod.fst) :
  addProperty lower builder (key, .many values) = .ok builder' ↔
    Admitted lower (key, values) ∧
      builder'.entries.entries = builder.entries.entries ++ [(key, values)]
  := by
  rw [addProperty, bind_eq_ok_iff]
  constructor
  · rintro ⟨name, hname, hrest⟩
    obtain ⟨checked, hchecked, hbuilder⟩ := bind_eq_ok_iff.1 hrest
    clear hrest
    have hvalues : checked.map Subtype.val = values := mapM_metadataValue_eq_ok.1 hchecked
    subst hvalues
    have hkey : name.val = key ∧ IsKey lower key := by
      rw [normalizeKey] at hname
      split at hname
      case isFalse => cases hname
      case isTrue hchecks =>
        cases hname
        exact ⟨hlower, hchecks.1, hchecks.2, hlower⟩
    obtain ⟨name, hproperty⟩ := name
    obtain ⟨rfl, hkey⟩ := hkey
    have hadmitted : Admitted lower (name, checked.map Subtype.val) := by
      refine ⟨hkey, ?_⟩
      intro v hv
      obtain ⟨w, -, rfl⟩ := List.mem_map.1 hv
      exact w.property
    refine ⟨hadmitted, ?_⟩
    rw [← ok.inj hbuilder]
    exact entries_updateBuilder hnew _ hadmitted
  · rintro ⟨hadmitted, hbuilder⟩
    let checked : List { v : JsString // v.isWellFormed = true } :=
      values.attach.map fun v => ⟨v.val, hadmitted.values v.val v.property⟩
    have hvalues : checked.map Subtype.val = values := by
      rw [List.map_map]
      exact List.attach_map_subtype_val values
    refine ⟨⟨key, hadmitted.key⟩, normalizeKey_of_isKey hadmitted.key, ?_⟩
    refine bind_eq_ok_iff.2 ⟨checked, mapM_metadataValue_eq_ok.2 hvalues, ?_⟩
    congr 1
    apply MetadataBuilder.ext_entries
    simp only [hvalues]
    exact (entries_updateBuilder hnew values hadmitted).trans hbuilder.symm

theorem foldlM_addProperty_eq_ok {entries : List (JsString × List JsString)}
    {builder builder' : MetadataBuilder lower}
    (hlower : ∀ e ∈ entries, lower.toLowerCase e.1 = e.1)
    (hnodup : ((builder.entries.entries ++ entries).map Prod.fst).Nodup) :
  (entries.map inputOf).foldlM (addProperty lower) builder = .ok builder' ↔
    (∀ e ∈ entries, Admitted lower e) ∧
      builder'.entries.entries = builder.entries.entries ++ entries
  := by
  induction entries generalizing builder with
  | nil =>
      rw [List.map_nil, List.foldlM_nil, List.append_nil]
      constructor
      · rintro ⟨⟩
        exact ⟨fun _ h => absurd h List.not_mem_nil, rfl⟩
      · rintro ⟨-, h⟩
        exact congrArg ok (MetadataBuilder.ext_entries h.symm)
  | cons e entries ih =>
      have hnew : e.1 ∉ builder.entries.entries.map Prod.fst := by
        rw [List.map_append, List.nodup_append'] at hnodup
        intro hmem
        exact hnodup.2.2 hmem List.mem_cons_self
      have happend : builder.entries.entries ++ [e] ++ entries =
          builder.entries.entries ++ e :: entries := by simp
      have hstep : ∀ {b : MetadataBuilder lower}, addProperty lower builder (inputOf e) = .ok b ↔
          Admitted lower e ∧ b.entries.entries = builder.entries.entries ++ [e] :=
        addProperty_eq_ok (hlower e List.mem_cons_self) hnew
      have hrest : ∀ {b : MetadataBuilder lower},
          b.entries.entries = builder.entries.entries ++ [e] →
          ((entries.map inputOf).foldlM (addProperty lower) b = .ok builder' ↔
            (∀ e ∈ entries, Admitted lower e) ∧
              builder'.entries.entries = builder.entries.entries ++ e :: entries) := by
        intro b hb
        rw [ih (fun q hq => hlower q (List.mem_cons_of_mem _ hq)) (by rwa [hb, happend]), hb,
          happend]
      rw [List.map_cons, List.foldlM_cons, bind_eq_ok_iff, List.forall_mem_cons]
      constructor
      · rintro ⟨b, hb, h⟩
        obtain ⟨he, hentries⟩ := hstep.1 hb
        obtain ⟨hothers, hresult⟩ := (hrest hentries).1 h
        exact ⟨⟨he, hothers⟩, hresult⟩
      · rintro ⟨⟨he, hothers⟩, hresult⟩
        let b := updateBuilder builder e.1 e.2 false he
        have hentries : b.entries.entries = builder.entries.entries ++ [e] :=
          entries_updateBuilder hnew e.2 he
        exact ⟨b, hstep.2 ⟨he, hentries⟩, (hrest hentries).2 ⟨hothers, hresult⟩⟩

/-- Lower-case names that differ are the names of the new snapshot, sorted. -/
theorem newMetadata_eq_ok {entries : List (JsString × List JsString)} {m : Snapshot lower}
    (hlower : ∀ e ∈ entries, lower.toLowerCase e.1 = e.1)
    (hnodup : (entries.map Prod.fst).Nodup) :
  newMetadata lower (entries.map inputOf) = .ok m ↔
    (∀ e ∈ entries, Admitted lower e) ∧ m.entries = frozenEntries entries
  := by
  have hfold := fun builder' : MetadataBuilder lower =>
    @foldlM_addProperty_eq_ok lower entries newBuilder builder' hlower hnodup
  rw [newMetadata, map_eq_ok_iff]
  constructor
  · rintro ⟨builder, hbuilder, rfl⟩
    obtain ⟨hadmitted, hentries⟩ := (hfold builder).1 hbuilder
    exact ⟨hadmitted, congrArg frozenEntries hentries⟩
  · rintro ⟨hadmitted, hentries⟩
    let builder : MetadataBuilder lower := ⟨⟨entries, hnodup⟩, hadmitted⟩
    refine ⟨builder, (hfold builder).2 ⟨hadmitted, rfl⟩, ?_⟩
    apply Snapshot.ext
    exact hentries.symm

/-- Names are sorted, those that are array indices are listed first, and the values of names that
become the same are joined. -/
example :
  (newMetadata UnicodeLowerCase.plain [(ofString "b", .one (ofString "x")),
    (ofString "10", .many []), (ofString "B", .one (ofString "y")),
    (ofString "9", .one (ofString "z"))]).map Snapshot.entries =
      .ok [(ofString "9", [ofString "z"]), (ofString "10", []),
        (ofString "b", [ofString "x", ofString "y"])]
  := rfl

end Metadata
