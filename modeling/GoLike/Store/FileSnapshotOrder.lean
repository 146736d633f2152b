import GoLike.Lib.OwnOrder
import GoLike.Store.Base64Exact
import GoLike.Store.FileSnapshot

/-!
# The snapshot file and the order of properties

A snapshot is written as a text, and its checksum is that of the text of a part of it. Reading
the text sets up new objects, of which the text is written once more to compare the checksum.
So what is read depends on the order in which objects list their properties: the metadata of a
record lists the keys that are array indices first.
-/

open OwnOrder

namespace Store.File.Text

/-! ### Encoding -/

/-- The metadata object of a record: its properties were set in the order of their names. -/
def metadataDocument (metadata : Metadata) : Json :=
  .object (ownOrder (metadata.entries.map (fun e => (e.1.val, .string e.2.val))))

/-- The document of a record. -/
def encodeRecord (record : StoreRecord) : Json :=
  .object
    [(name "key", .string record.key.val),
      (name "value", .string (Base64.encodeBase64 record.value)),
      (name "metadata", metadataDocument record.metadata),
      (name "revision", .string record.revision.val),
      (name "expiresAt", expiryDocument (record.expiresAt.map Subtype.val))]

/-- Write the snapshot of records at a generation: a text, from which its document is read. The
digest is that of the text of a document. -/
def encodeSnapshot (digest : Json → Digest) (records : Records) (revision : ℕ) : SnapshotBytes :=
  .text (some (snapshotDocument digest encodeRecord records revision).reread)

/-! ### The text is read as it was written -/

theorem reread_string (s : JsString) :
  Json.reread (.string s) = .string s
  := by rw [Json.reread]

theorem reread_number (x : JsNumber) :
  Json.reread (.number x) = .number x
  := by rw [Json.reread]

theorem reread_expiryDocument (expiresAt : Option ℕ) :
  (expiryDocument expiresAt).reread = expiryDocument expiresAt
  := by
  cases expiresAt with
  | none => rw [expiryDocument, Json.reread]
  | some t => rw [expiryDocument, reread_number]

theorem reread_metadataDocument (metadata : Metadata) :
  (metadataDocument metadata).reread = metadataDocument metadata
  := by
  apply Json.reread_object
  · exact ownOrder_ownOrder _
  · intro p hp
    rw [mem_ownOrder, List.mem_map] at hp
    obtain ⟨e, -, rfl⟩ := hp
    exact reread_string e.2.val

/-- The names of the properties of records and snapshots are no array indices. -/
theorem arrayIndex?_name {text : String}
    (h : text ∈ ["key", "value", "metadata", "revision", "expiresAt", "schemaVersion", "records",
      "checksum"]) :
  arrayIndex? (name text) = none
  := by
  simp only [List.mem_cons, List.not_mem_nil, or_false] at h
  obtain rfl | rfl | rfl | rfl | rfl | rfl | rfl | rfl := h
  all_goals rfl

theorem reread_encodeRecord (record : StoreRecord) :
  (encodeRecord record).reread = encodeRecord record
  := by
  apply Json.reread_object
  · apply ownOrder_eq_self
    intro p hp
    simp only [List.mem_cons, List.not_mem_nil, or_false] at hp
    obtain rfl | rfl | rfl | rfl | rfl := hp
    all_goals exact arrayIndex?_name (by simp)
  · intro p hp
    simp only [List.mem_cons, List.not_mem_nil, or_false] at hp
    obtain rfl | rfl | rfl | rfl | rfl := hp
    · exact reread_string _
    · exact reread_string _
    · exact reread_metadataDocument record.metadata
    · exact reread_string _
    · exact reread_expiryDocument _

theorem reread_snapshotDocument (digest : Json → Digest) (records : Records) (revision : ℕ) :
  (snapshotDocument digest encodeRecord records revision).reread =
    snapshotDocument digest encodeRecord records revision
  := by
  apply Json.reread_object
  · apply ownOrder_eq_self
    intro p hp
    simp only [List.mem_cons, List.not_mem_nil, or_false] at hp
    obtain rfl | rfl | rfl | rfl := hp
    all_goals exact arrayIndex?_name (by simp)
  · intro p hp
    simp only [List.mem_cons, List.not_mem_nil, or_false] at hp
    obtain rfl | rfl | rfl | rfl := hp
    · exact reread_number _
    · exact reread_number _
    · rw [Json.reread, Json.rereadElements_eq_self]
      intro j hj
      obtain ⟨record, -, rfl⟩ := List.mem_map.mp hj
      exact reread_encodeRecord record
    · exact reread_string _

/-! ### The round trip -/

theorem exists_map_of_perm {α β : Type} {f : α → β} {es : List α} {l : List β}
    (h : l.Perm (es.map f)) (hf : Function.Injective f) :
  ∃ es' : List α, l = es'.map f ∧ es'.Perm es
  := by
  have hrange : ∀ b ∈ l, ∃ a, f a = b := by
    intro b hb
    obtain ⟨a, -, ha⟩ := List.mem_map.mp (h.mem_iff.mp hb)
    exact ⟨a, ha⟩
  obtain ⟨es', rfl⟩ : ∃ es' : List α, l = es'.map f := by
    clear h
    induction l with
    | nil => exact ⟨[], rfl⟩
    | cons b l ih =>
        obtain ⟨a, rfl⟩ := hrange b List.mem_cons_self
        obtain ⟨es', rfl⟩ := ih (fun c hc => hrange c (List.mem_cons_of_mem _ hc))
        exact ⟨a :: es', rfl⟩
  exact ⟨es', rfl, (List.map_perm_map_iff hf).mp h⟩

theorem entry_injective :
  Function.Injective
    (fun e : MetadataEntry => ((e.1.val, Json.string e.2.val) : JsString × Json))
  := by
  rintro ⟨⟨k, hk⟩, ⟨v, hv⟩⟩ ⟨⟨k', hk'⟩, ⟨v', hv'⟩⟩ h
  simp only [Prod.mk.injEq, Json.string.injEq] at h
  obtain ⟨rfl, rfl⟩ := h
  rfl

/-- Metadata is read back from an object that lists its properties in any order. -/
theorem metadataObject_metadataDocument (m : Metadata) :
  ∃ object, metadataObject (metadataDocument m) = some object ∧ snapshotMetadata object = .ok m
  := by
  obtain ⟨es, hes, hperm⟩ := exists_map_of_perm
    (ownOrder_perm (m.entries.map (fun e => (e.1.val, Json.string e.2.val)))) entry_injective
  have hkeys : ((m.entries.map (fun e => (⟨e.1.val, e.2.val⟩ : Σ _ : JsString, JsString))).map
      Sigma.fst).Nodup := m.toObject.nodupKeys
  have hnodup : ((es.map (fun e => (⟨e.1.val, e.2.val⟩ : Σ _ : JsString, JsString))).map
      Sigma.fst).Nodup := ((hperm.map _).map _).nodup_iff.mpr hkeys
  let object : StringRecord :=
    ⟨es.map (fun e => (⟨e.1.val, e.2.val⟩ : Σ _ : JsString, JsString)), by
      rw [List.NodupKeys, List.keys]
      exact hnodup⟩
  refine ⟨object, ?_, ?_⟩
  · rw [metadataDocument, hes]
    simp only [metadataObject, metadataEntries_map, Option.bind_eq_bind, Option.bind_some]
    rw [dif_pos hnodup]
  · rw [snapshotMetadata]
    split
    case h_1 e h =>
      rw [copyEntries_map] at h
      cases h
    case h_2 copied h =>
      have hcopied : copied = es := by
        rw [copyEntries_map] at h
        cases h
        rfl
      subst hcopied
      congr 1
      obtain ⟨entries, hsorted⟩ := m
      simp only [Metadata.mk.injEq]
      apply SortedByKey.eq_of_mem_iff Prod.fst _ hsorted
      · intro e
        rw [mem_sortByKey]
        exact hperm.mem_iff
      · exact sortedByKey_sortByKey _ (keys_nodup_of_copyEntries h)

theorem decodeRecord_encodeRecord {revision : ℕ} (hrevision : revision ≤ MaximumRevision)
    {r : StoreRecord} (h : Storable revision r) :
  decodeRecord (encodeRecord r) revision = .ok r
  := by
  obtain ⟨object, hobject, hmetadata⟩ := metadataObject_metadataDocument r.metadata
  exact decodeRecord_fields hrevision h hobject hmetadata

/-! ### What is accepted -/

theorem asString_eq_some {j : Json} {s : JsString} (h : j.asString = some s) :
  j = .string s
  := by
  cases j with
  | string t =>
      cases h
      rfl
  | _ => cases h

/-- The value of a decoded record is canonical base64. -/
theorem value_of_decodeRecord {value : Json} {revision : ℕ} {r : StoreRecord}
    (h : decodeRecord value revision = .ok r) :
  ∃ fields, value = .object fields ∧
    Json.property fields (name "value") = some (.string (Base64.encodeBase64 r.value))
  := by
  cases value with
  | object fields =>
      refine ⟨fields, rfl, ?_⟩
      rw [decodeRecord] at h
      split at h
      · split at h
        · cases h
        · rename_i record hrecord
          cases h
          simp only [recordOf, Option.bind_eq_bind, Option.bind_eq_some_iff, guard_eq_some]
            at hrecord
          obtain ⟨_, -, _, -, _, -, _, -, _, -, _, -, _, -, _, -, _, -, _, -, _, -, property,
            hproperty, text, htext, bytes, hbytes, hr⟩ := hrecord
          obtain ⟨htext', -⟩ := Base64.decodeBase64_eq_ok_iff.mp (toOption_eq_some hbytes)
          obtain ⟨-, hvalue, -⟩ := fields_of_snapshotStoreRecord (toOption_eq_some hr)
          rw [hproperty, asString_eq_some htext, htext', hvalue]
      · cases h
  | _ => cases h

/-- The records that are decoded from values, added to those decoded before. -/
theorem decodeRecords_eq_ok {revision : ℕ} {values : List Json} {records loaded : Records}
    (h : decodeRecords revision records values = .ok loaded) :
  ∃ rs, List.Forall₂ (fun value r => decodeRecord value revision = .ok r) values rs ∧
    (rs.map StoreRecord.key).Nodup ∧ (∀ r ∈ rs, records.lookup r.key = none) ∧
    ∀ key r, loaded.lookup key = some r ↔ (r ∈ rs ∧ r.key = key) ∨ records.lookup key = some r
  := by
  induction values generalizing records with
  | nil =>
      cases h
      exact ⟨[], List.Forall₂.nil, List.nodup_nil, by simp, by simp⟩
  | cons value rest ih =>
      rw [decodeRecords] at h
      split at h
      · cases h
      · rename_i record hrecord
        split at h
        · cases h
        · rename_i hfresh
          have hnone : records.lookup record.key = none := by
            simpa using hfresh
          obtain ⟨rs, hforall, hnodup, hrs, hlookup⟩ := ih h
          have hne : ∀ r ∈ rs, r.key ≠ record.key := by
            intro r hr heq
            have hlooked := hrs r hr
            rw [heq, AList.lookup_insert] at hlooked
            cases hlooked
          refine ⟨record :: rs, List.Forall₂.cons hrecord hforall, ?_, ?_, ?_⟩
          · rw [List.map_cons, List.nodup_cons]
            refine ⟨?_, hnodup⟩
            intro hmem
            obtain ⟨r, hr, heq⟩ := List.mem_map.mp hmem
            exact hne r hr heq
          · intro r hr
            obtain rfl | hr := List.mem_cons.mp hr
            · exact hnone
            · have hlooked := hrs r hr
              rw [AList.lookup_insert_ne (hne r hr)] at hlooked
              exact hlooked
          · intro key r
            rw [hlookup]
            by_cases hkey : key = record.key
            · subst hkey
              rw [AList.lookup_insert, hnone]
              constructor
              · rintro (⟨hr, heq⟩ | heq)
                · exact absurd heq (hne r hr)
                · cases heq
                  exact Or.inl ⟨List.mem_cons_self, rfl⟩
              · rintro (⟨hr, heq⟩ | heq)
                · obtain rfl | hr := List.mem_cons.mp hr
                  · exact Or.inr rfl
                  · exact absurd heq (hne r hr)
                · cases heq
            · rw [AList.lookup_insert_ne hkey]
              constructor
              · rintro (⟨hr, heq⟩ | heq)
                · exact Or.inl ⟨List.mem_cons_of_mem _ hr, heq⟩
                · exact Or.inr heq
              · rintro (⟨hr, heq⟩ | heq)
                · obtain rfl | hr := List.mem_cons.mp hr
                  · exact absurd heq.symm hkey
                  · exact Or.inl ⟨hr, heq⟩
                · exact Or.inr heq

/-- What an accepted snapshot holds: its document lists values, of which the records are decoded
one by one, with distinct keys, canonical base64, and revisions issued by the generation. -/
def Accepted (document : Json) (loaded : LoadedSnapshot) : Prop :=
  ∃ (properties : List (JsString × Json)) (values : List Json) (rs : List StoreRecord),
    document = .object properties ∧
    Json.property properties (name "records") = some (.array values) ∧
    List.Forall₂ (fun value r => decodeRecord value loaded.revision = .ok r ∧
      ∃ fields, value = .object fields ∧
        Json.property fields (name "value") = some (.string (Base64.encodeBase64 r.value)))
      values rs ∧
    (rs.map StoreRecord.key).Nodup ∧
    (∀ r ∈ rs, 1 ≤ r.revision.val.decimalValue ∧
      r.revision.val.decimalValue ≤ loaded.revision) ∧
    ∀ key r, loaded.records.lookup key = some r ↔ r ∈ rs ∧ r.key = key

theorem exists_of_mem_right {α β : Type} {R : α → β → Prop} {l : List α} {m : List β}
    (h : List.Forall₂ R l m) {b : β} (hb : b ∈ m) :
  ∃ a ∈ l, R a b
  := by
  induction h with
  | nil => cases hb
  | @cons a b' l m hab _ ih =>
      obtain rfl | hb := List.mem_cons.mp hb
      · exact ⟨a, List.mem_cons_self, hab⟩
      · obtain ⟨a', ha', hr⟩ := ih hb
        exact ⟨a', List.mem_cons_of_mem _ ha', hr⟩

theorem accepted_of_decodeSnapshot {digest : Json → Digest} {bytes : SnapshotBytes}
    {loaded : LoadedSnapshot} (h : decodeSnapshot digest bytes = .ok loaded) :
  ∃ document, bytes = .text (some document) ∧ Accepted document loaded
  := by
  unfold decodeSnapshot at h
  split at h
  · cases h
  · cases h
  · rename_i properties
    refine ⟨.object properties, rfl, ?_⟩
    split at h
    · cases h
    · split at h
      · rename_i checksum schemaVersion revision records _ _ _ hvalues
        split at h
        · cases h
        · split at h
          · cases h
          · split at h
            · rename_i version generation values _ _ _
              split at h
              · cases h
              · rename_i n hn
                split at h
                · cases h
                · split at h
                  · cases h
                  · rename_i decoded hdecoded
                    cases h
                    obtain ⟨rs, hforall, hnodup, -, hlookup⟩ := decodeRecords_eq_ok hdecoded
                    refine ⟨properties, values, rs, rfl, hvalues, ?_, hnodup, ?_, ?_⟩
                    · refine List.Forall₂.imp ?_ hforall
                      intro value r hr
                      exact ⟨hr, value_of_decodeRecord hr⟩
                    · intro r hr
                      obtain ⟨value, -, hvalue⟩ := exists_of_mem_right hforall hr
                      have hstorable := decodeRecord_storable hvalue
                      exact ⟨hstorable.positive, hstorable.issued⟩
                    · intro key r
                      rw [hlookup]
                      simp
            · cases h
      · cases h
  · cases h

/-- What is written of records is read back, and what is read has distinct keys, revisions issued
by the generation and canonical values. -/
theorem snapshot_exact (digest : Json → Digest) :
  (∀ (records : Records) (revision : ℕ), StorableAll records revision →
      ∃ records', decodeSnapshot digest (encodeSnapshot digest records revision) =
          .ok ⟨records', revision⟩ ∧
        ∀ key, records'.lookup key = records.lookup key) ∧
    ∀ (bytes : SnapshotBytes) (loaded : LoadedSnapshot), decodeSnapshot digest bytes = .ok loaded →
      ∃ document, bytes = .text (some document) ∧ Accepted document loaded
  := by
  constructor
  · intro records revision h
    rw [encodeSnapshot, reread_snapshotDocument]
    apply decodeSnapshot_snapshotDocument digest h
    intro r hr
    exact decodeRecord_encodeRecord h.revision_le hr
  · intro bytes loaded h
    exact accepted_of_decodeSnapshot h

/-- A record whose metadata has names that are array indices, and one that is not. -/
def indexedRecord : StoreRecord where
  key := ⟨name "a", by decide⟩
  value := [0, 255]
  metadata :=
    ⟨[(⟨name "10", by decide⟩, ⟨name "x", by decide⟩), (⟨name "9", by decide⟩, ⟨name "y", by decide⟩),
      (⟨name "__proto__", by decide⟩, ⟨name "z", by decide⟩)], by
      rw [SortedByKey]
      decide⟩
  revision := revisionText 1
  expiresAt := none

/-- The object lists the names `9` and `10` in the order of their numbers. -/
example : metadataDocument indexedRecord.metadata = .object
    [(name "9", .string (name "y")), (name "10", .string (name "x")),
      (name "__proto__", .string (name "z"))] := by
  rfl

theorem snapshot_exact_indexed :
  let digest : Json → Digest := fun _ => ⟨List.replicate 32 0, rfl⟩
  let records : Records := AList.singleton indexedRecord.key indexedRecord
  ∃ records', decodeSnapshot digest (encodeSnapshot digest records 1) = .ok ⟨records', 1⟩ ∧
    ∀ key, records'.lookup key = records.lookup key
  := by
  intro digest records
  have hlookup : ∀ key r, records.lookup key = some r → key = indexedRecord.key ∧ r = indexedRecord := by
    intro key r h
    have hmem := AList.mem_lookup_iff.mp h
    rw [AList.singleton_entries, List.mem_singleton] at hmem
    cases hmem
    exact ⟨rfl, rfl⟩
  apply (snapshot_exact digest).1 records 1
  constructor
  case revision_le => decide
  case keyed =>
    intro key r h
    obtain ⟨rfl, rfl⟩ := hlookup key r h
    rfl
  case storable =>
    intro key r h
    obtain ⟨rfl, rfl⟩ := hlookup key r h
    constructor
    case decimal => exact JsString.isDecimal_ofNat 1
    case positive => exact (JsString.decimalValue_ofNat 1).ge
    case issued => exact (JsString.decimalValue_ofNat 1).le
    case keyBytes => decide
    case valueBytes => decide

end Store.File.Text
