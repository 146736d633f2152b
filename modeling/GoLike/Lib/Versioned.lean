import Mathlib.Data.List.Basic
import Mathlib.Order.Nat
import Mathlib.Order.Lattice

/-!
# Versioned maps with expiry

A versioned map assigns to a key at most one entry, which consists of a content, a
revision and possibly a time of expiry. An entry is visible before it expires. Writes and
deletes may be conditional on the visible entry of their key. Each write takes a revision
numbered above all those issued before; `token` names the revision of a number.

A run is a sequence of events at non-decreasing times. In a run an entry stays as it was
written until it is replaced or removed, so a revision determines its key and entry, and a
revision that has disappeared from its key does not come back.
-/

namespace Versioned

variable {K V T R : Type}

/-- An entry of a versioned map. -/
structure Entry (V T R : Type) where
  content : V
  revision : R
  expiresAt : Option T

/-- A versioned map, with the number of the last revision issued. -/
structure VersionedMap (K V T R : Type) where
  entries : K → Option (Entry V T R)
  issued : ℕ

/-- The condition on the visible entry under which a write or a delete is admitted. -/
inductive Condition (R : Type) where
  | always
  | absent
  | revision (r : R)

/-- The condition holds of the visible entry of a key. -/
def Condition.Admits : Condition R → Option (Entry V T R) → Prop
  | always, _ => True
  | absent, current => current = none
  | revision r, current => current.map Entry.revision = some r

/-- What is observed of one call. -/
inductive Event (K V T R : Type) where
  /-- A read of `k` found `found`. -/
  | read (k : K) (found : Option (Entry V T R))
  /-- A write of `k` created the entry `e`. -/
  | write (k : K) (c : Condition R) (e : Entry V T R)
  /-- A delete of `k` reported whether it removed a visible entry. -/
  | delete (k : K) (c : Condition R) (deleted : Bool)
  /-- A conditional write or delete of `k` met another revision than it expected. -/
  | conflict (k : K) (c : Condition R) (actual : Option R)
  /-- A list of the keys in `P` found `l`. -/
  | list (P : K → Prop) (l : List (K × Entry V T R))
  /-- A call failed. -/
  | fail

/-- The revision that the event issues. -/
def Event.written : Event K V T R → Option R
  | write _ _ e => some e.revision
  | _ => none

section Visibility

variable [LinearOrder T]

/-- The entry has not expired. -/
def Entry.live (now : T) (e : Entry V T R) : Bool :=
  match e.expiresAt with
  | none => true
  | some t => now < t

/-- An entry that is live is live at any earlier time. -/
theorem Entry.live_of_le {now later : T} {e : Entry V T R} (hle : now ≤ later)
    (h : e.live later = true) :
  e.live now = true
  := by
  rw [live] at h ⊢
  split at h
  · rfl
  · apply decide_eq_true
    apply lt_of_le_of_lt hle (of_decide_eq_true h)

/-- The entry of a key, if it is live. -/
def VersionedMap.visible (m : VersionedMap K V T R) (now : T) (k : K) : Option (Entry V T R) :=
  (m.entries k).filter (Entry.live now)

theorem VersionedMap.visible_eq_some {m : VersionedMap K V T R} {now : T} {k : K}
    {e : Entry V T R} :
  m.visible now k = some e ↔ m.entries k = some e ∧ e.live now = true
  := Option.filter_eq_some_iff

end Visibility

/-- The map without entries, after which revisions above `seed` are issued. -/
def VersionedMap.init (seed : ℕ) : VersionedMap K V T R := ⟨fun _ => none, seed⟩

section Step

variable [LinearOrder K] [LinearOrder T] (token : ℕ → R)

/-- The map with the entry of `k` replaced by `e`, of revision number `n`. -/
def VersionedMap.put (m : VersionedMap K V T R) (k : K) (e : Entry V T R) (n : ℕ) :
    VersionedMap K V T R :=
  ⟨Function.update m.entries k (some e), n⟩

/-- The map without the entry of `k`. -/
def VersionedMap.remove (m : VersionedMap K V T R) (k : K) : VersionedMap K V T R :=
  ⟨Function.update m.entries k none, m.issued⟩

/-- The event at time `now` takes one map to another. -/
inductive Step (now : T) (m : VersionedMap K V T R) :
    Event K V T R → VersionedMap K V T R → Prop where
  | read (k : K) : Step now m (.read k (m.visible now k)) m
  | write (k : K) (c : Condition R) (v : V) (t : Option T) (n : ℕ) (hn : m.issued < n)
      (hc : c.Admits (m.visible now k)) :
      Step now m (.write k c ⟨v, token n, t⟩) (m.put k ⟨v, token n, t⟩ n)
  | delete (k : K) (c : Condition R) (hc : c.Admits (m.visible now k)) :
      Step now m (.delete k c (m.visible now k).isSome) (m.remove k)
  | conflict (k : K) (c : Condition R) (hc : ¬ c.Admits (m.visible now k)) :
      Step now m (.conflict k c ((m.visible now k).map Entry.revision)) m
  | list (P : K → Prop) (l : List (K × Entry V T R)) (hsorted : l.Pairwise (·.1 < ·.1))
      (hmem : ∀ k e, (k, e) ∈ l ↔ P k ∧ m.visible now k = some e) :
      Step now m (.list P l) m
  | fail : Step now m .fail m

/-- The events, each at its time, take one map and time to another; the times do not
decrease. -/
inductive Run : T → VersionedMap K V T R → List (T × Event K V T R) → T →
    VersionedMap K V T R → Prop where
  | nil {now later : T} (m : VersionedMap K V T R) (hle : now ≤ later) : Run now m [] later m
  | cons {now now' later : T} {m m' m'' : VersionedMap K V T R} {event : Event K V T R}
      {events : List (T × Event K V T R)} (hle : now ≤ now') (hstep : Step token now' m event m')
      (hrun : Run now' m' events later m'') :
      Run now m ((now', event) :: events) later m''

variable {token}

/-! ### One step -/

variable {now : T} {m m' : VersionedMap K V T R} {event : Event K V T R}

theorem Step.issued_le (h : Step token now m event m') :
  m.issued ≤ m'.issued
  := by
  cases h with
  | write k c v t n hn hc => exact hn.le
  | _ => exact le_rfl

variable {k : K} {e : Entry V T R}

/-- An entry after a step was there before, or it is the only change and its revision is
the one issued. -/
theorem Step.entries (h : Step token now m event m') (he : m'.entries k = some e) :
  m.entries k = some e ∨
    (m.issued < m'.issued ∧ e.revision = token m'.issued ∧
      ∀ j, j ≠ k → m'.entries j = m.entries j)
  := by
  cases h with
  | write k' c v t n hn hc =>
      by_cases hk : k = k'
      · subst hk
        simp only [VersionedMap.put, Function.update_self, Option.some.injEq] at he
        right
        rw [← he]
        refine ⟨hn, rfl, ?_⟩
        intro j hj
        apply Function.update_of_ne hj
      · left
        simpa [VersionedMap.put, hk] using he
  | delete k' c hc =>
      left
      by_cases hk : k = k'
      · subst hk
        simp [VersionedMap.remove] at he
      · simpa [VersionedMap.remove, hk] using he
  | _ => exact .inl he

/-- The revisions of a map have been issued, and different keys have different ones. -/
structure VersionedMap.Consistent (token : ℕ → R) (m : VersionedMap K V T R) : Prop where
  issued : ∀ k e, m.entries k = some e → ∃ n, n ≤ m.issued ∧ e.revision = token n
  unique : ∀ k k' e e', m.entries k = some e → m.entries k' = some e' →
    e.revision = e'.revision → k = k'

omit [LinearOrder K] [LinearOrder T] in
theorem consistent_init (token : ℕ → R) (seed : ℕ) :
  (VersionedMap.init seed : VersionedMap K V T R).Consistent token
  := by
  constructor
  · intro k e h
    cases h
  · intro k k' e e' h
    cases h

theorem Step.consistent (htoken : Function.Injective token) (h : Step token now m event m')
    (hm : m.Consistent token) :
  m'.Consistent token
  := by
  -- the revision of an old entry is not the one issued by the step
  have old : ∀ j f, m.entries j = some f → m.issued < m'.issued →
      f.revision ≠ token m'.issued := by
    intro j f hf hlt heq
    obtain ⟨n, hn, hrev⟩ := hm.issued j f hf
    have := htoken (hrev.symm.trans heq)
    omega
  constructor
  · intro k e he
    cases h.entries he with
    | inl hold =>
        obtain ⟨n, hn, hrev⟩ := hm.issued k e hold
        exact ⟨n, hn.trans h.issued_le, hrev⟩
    | inr hnew => exact ⟨m'.issued, le_rfl, hnew.2.1⟩
  · intro k k' e e' he he' hrev
    by_contra hne
    cases h.entries he with
    | inl hold =>
        cases h.entries he' with
        | inl hold' => exact hne (hm.unique k k' e e' hold hold' hrev)
        | inr hnew' => exact old k e hold hnew'.1 (hrev.trans hnew'.2.1)
    | inr hnew =>
        have hold' : m.entries k' = some e' := by
          rw [← hnew.2.2 k' (Ne.symm hne)]
          exact he'
        exact old k' e' hold' hnew.1 (hrev.symm.trans hnew.2.1)

/-! ### Runs -/

variable {later : T} {events : List (T × Event K V T R)}

theorem Run.issued_le (h : Run token now m events later m') :
  m.issued ≤ m'.issued
  := by
  induction h with
  | nil m hle => exact le_rfl
  | cons hle hstep hrun ih => exact hstep.issued_le.trans ih

theorem Run.time_le (h : Run token now m events later m') :
  now ≤ later
  := by
  induction h with
  | nil m hle => exact hle
  | cons hle hstep hrun ih => exact hle.trans ih

theorem Run.consistent (htoken : Function.Injective token) (h : Run token now m events later m')
    (hm : m.Consistent token) :
  m'.Consistent token
  := by
  induction h with
  | nil m hle => exact hm
  | cons hle hstep hrun ih => exact ih (hstep.consistent htoken hm)

/-- An entry after a run was there before, or its revision was issued in the run. -/
theorem Run.entries (h : Run token now m events later m') (he : m'.entries k = some e) :
  m.entries k = some e ∨ ∃ n, m.issued < n ∧ e.revision = token n
  := by
  induction h with
  | nil m hle => exact .inl he
  | @cons now now' later m m' m'' event events hle hstep hrun ih =>
      cases ih he with
      | inl hmid =>
          cases hstep.entries hmid with
          | inl hold => exact .inl hold
          | inr hnew => exact .inr ⟨_, hnew.1, hnew.2.1⟩
      | inr hnew =>
          obtain ⟨n, hn, hrev⟩ := hnew
          exact .inr ⟨n, lt_of_le_of_lt hstep.issued_le hn, hrev⟩

/-- The revision of an entry after a run that had been issued before the run was the
revision of the same entry then. -/
theorem Run.entries_of_issued (htoken : Function.Injective token)
    (h : Run token now m events later m') (he : m'.entries k = some e) {n : ℕ} (hn : n ≤ m.issued)
    (hrev : e.revision = token n) :
  m.entries k = some e
  := by
  cases h.entries he with
  | inl hold => exact hold
  | inr hnew =>
      obtain ⟨n', hn', hrev'⟩ := hnew
      have := htoken (hrev.symm.trans hrev')
      omega

/-- A revision determines its key and its entry. -/
theorem Run.revision_unique (htoken : Function.Injective token) {k' : K} {e' : Entry V T R}
    (h : Run token now m events later m') (hm : m.Consistent token) (he : m.entries k = some e)
    (he' : m'.entries k' = some e') (hrev : e.revision = e'.revision) :
  k = k' ∧ e = e'
  := by
  obtain ⟨n, hn, hrev'⟩ := hm.issued k e he
  have hold := h.entries_of_issued htoken he' hn (hrev.symm.trans hrev')
  have hk := hm.unique k k' e e' he hold hrev
  subst hk
  rw [he] at hold
  exact ⟨rfl, Option.some.inj hold⟩

/-- A revision that is no longer visible at its key does not become visible there again. -/
theorem Run.revision_stale (htoken : Function.Injective token) {t₁ t₂ t₃ : T}
    {m₁ m₂ m₃ : VersionedMap K V T R} {events' : List (T × Event K V T R)} {r : R}
    (h : Run token t₁ m₁ events t₂ m₂) (h' : Run token t₂ m₂ events' t₃ m₃)
    (hm : m₁.Consistent token) (hseen : (m₁.visible t₁ k).map Entry.revision = some r)
    (hgone : (m₂.visible t₂ k).map Entry.revision ≠ some r) :
  (m₃.visible t₃ k).map Entry.revision ≠ some r
  := by
  intro hback
  obtain ⟨e, he, hrev⟩ := Option.map_eq_some_iff.mp hseen
  obtain ⟨e', he', hrev'⟩ := Option.map_eq_some_iff.mp hback
  obtain ⟨n, hn, htok⟩ := hm.issued k e (VersionedMap.visible_eq_some.mp he).1
  obtain ⟨hentry, hlive⟩ := VersionedMap.visible_eq_some.mp he'
  have hmid := h'.entries_of_issued htoken hentry (hn.trans h.issued_le)
    (hrev'.trans (hrev.symm.trans htok))
  apply hgone
  have hvis : m₂.visible t₂ k = some e' :=
    VersionedMap.visible_eq_some.mpr ⟨hmid, Entry.live_of_le h'.time_le hlive⟩
  rw [hvis, Option.map_some, hrev']

/-- The revisions written in a run are numbered increasingly, above those issued before. -/
theorem Run.written (h : Run token now m events later m') :
  ∃ ns : List ℕ, events.filterMap (fun e => e.2.written) = ns.map token ∧
    (m.issued :: ns).Pairwise (· < ·)
  := by
  induction h with
  | nil m hle =>
      use []
      simp
  | @cons now now' later m m' m'' event events hle hstep hrun ih =>
      obtain ⟨ns, hns, hlt⟩ := ih
      have hlast := List.pairwise_cons.mp hlt
      have weaken : (m.issued :: ns).Pairwise (· < ·) :=
        List.pairwise_cons.mpr
          ⟨fun n hn => lt_of_le_of_lt hstep.issued_le (hlast.1 n hn), hlast.2⟩
      cases hstep with
      | write k c v t n hn hc =>
          use n :: ns
          constructor
          · rw [List.filterMap_cons, hns]
            rfl
          · apply List.pairwise_cons.mpr ⟨_, hlt⟩
            intro n' hn'
            cases List.mem_cons.mp hn' with
            | inl heq =>
                rw [heq]
                exact hn
            | inr hmem => exact hn.trans (hlast.1 n' hmem)
      | _ =>
          use ns
          constructor
          · rw [List.filterMap_cons]
            exact hns
          · exact weaken

end Step

end Versioned
