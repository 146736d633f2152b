import GoLike.Store.Etcd.Writes

/-!
# The deletes of the etcd Store

Every response is delivered. A delete takes a transaction that meets no row to have deleted
the row it expected, so a delete that first met a visible row must not reach the key space
while its key has no row: then what it reports deleted it has deleted itself, and no other
call reports the same.
-/

open Interleave

namespace Store.Etcd

variable {ι : Type} [DecidableEq ι] {marker : ι ↪ Key} {i : ι} {s s' : KeySpace ι}
  {o : List Observation}

/-! ### Services that deliver every response -/

/-- The call observed a visible row of the key. -/
def SawVisible (o : List Observation) (key : Key) : Prop :=
  ∃ kv row, .row key (some kv) ∈ o ∧ decodeRow kv = some row ∧ VisibleIn o row

/-- The request is no deletion by a call that observed a visible row of the key while the
key has no row. -/
def Careful (i : ι) (q : Request) (s : KeySpace ι) : Prop :=
  ∀ operation x key, q = .post (.txn operation x) → x.success = .deleteRange key →
    s.rows key = none → ¬ SawVisible (s.observed i) key

/-- The change removed an expected row of a key. -/
structure Removal (key : Key) (current : EtcdRow) (c : Change ι) : Prop where
  key : c.key = key
  after : c.after = none
  before : ∃ kv, c.before = some kv ∧ decodeRow kv = some current

variable {key : Key} {current : EtcdRow}

/-- The change removed a row of a key, of a given revision if one is given. -/
structure Removed (config : DeleteOptions) (key : Key) (c : Change ι) : Prop where
  key : c.key = key
  after : c.after = none
  before : ∃ kv, c.before = some kv ∧
    ∀ r, config.ifRevision = some r → r = revisionText kv.modRevision

omit [DecidableEq ι] in
theorem Removal.removed {config : DeleteOptions} {c : Change ι} (h : Removal key current c)
    (hrevision : ∀ r, config.ifRevision = some r → current.record.revision = r) :
  Removed config key c
  := by
  obtain ⟨kv, hbefore, hdecode⟩ := h.before
  refine ⟨h.key, h.after, kv, hbefore, ?_⟩
  intro r hr
  obtain ⟨-, hmod, -⟩ := decodeRow_eq_some hdecode
  rw [← hrevision r hr, hmod]

theorem SawVisible.mono {o' : List Observation} (h : SawVisible o key) (hsub : o ⊆ o') :
  SawVisible o' key
  := by
  obtain ⟨kv, row, hkv, hdecode, hvisible⟩ := h
  exact ⟨kv, row, hsub hkv, hdecode, hvisible.mono hsub⟩

/-- The call removed the generation of a key with a modification revision. -/
def Removes (s : KeySpace ι) (i : ι) (key : Key) (n : ℕ) : Prop :=
  ∃ c ∈ changesOf s i, c.key = key ∧ c.after = none ∧
    ∃ kv, c.before = some kv ∧ kv.modRevision = n

instance : Std.Symm (Different : Change ι → Change ι → Prop) :=
  ⟨fun _ _ h hkey kv kv' hkv hkv' => (h hkey.symm kv' kv hkv' hkv).symm⟩

/-- No two calls have removed the same generation. -/
theorem Consistent.once (h : Consistent marker s) {j : ι} {n : ℕ} (hi : Removes s i key n)
    (hj : Removes s j key n) :
  i = j
  := by
  obtain ⟨c, hc, rfl, -, kv, hbefore, rfl⟩ := hi
  obtain ⟨c', hc', hkey, -, kv', hbefore', hn⟩ := hj
  obtain ⟨hmem, rfl⟩ := mem_changesOf.mp hc
  obtain ⟨hmem', rfl⟩ := mem_changesOf.mp hc'
  by_contra hne
  have hcc' : c ≠ c' := fun heq => hne (congrArg Change.author heq)
  have hdifferent : Different c c' := h.different.forall hmem hmem' hcc'
  exact hdifferent hkey.symm kv kv' hbefore hbefore' hn.symm

end Store.Etcd
