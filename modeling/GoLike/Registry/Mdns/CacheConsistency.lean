import GoLike.Registry.Mdns.Cache

/-!
# The mDNS cache is consistent

In every state of a cache the publishers of an identity agree on its content, so the
logical instances of the cache are determined. Each call reports exactly the names whose
instances it changes, and a call that throws changes nothing.
-/

open Store

namespace Registry.Mdns

variable {urls : UrlParser}

/-! ### Agreement -/

/-- All records of an identity have the content of one instance. -/
structure Agrees (id : JsonText) (records : IdentityPublishers urls)
    (x : ServiceInstance urls) : Prop where
  nonempty : records.entries ≠ []
  identity : identityPreimage x = id
  content : ∀ e ∈ records.entries, e.2.serviceInstance = x

/-- The publishers of every identity agree. -/
def Consistent (cache : MDNSCache urls) : Prop :=
  ∀ e ∈ cache.entries, ∃ x, Agrees e.1 e.2 x

variable {x : ServiceInstance urls}

theorem agreed_some {l : List (PublisherRecord urls)}
    (h : ∀ record ∈ l, record.serviceInstance = x) :
  agreed (some (x, canonicalPayload x)) l = .ok (some x)
  := by
  induction l with
  | nil => rfl
  | cons record rest ih =>
      have hx : record.serviceInstance = x := h record List.mem_cons_self
      rw [agreed, hx, if_neg (by simp)]
      apply ih
      intro record' hmem
      exact h record' (List.mem_cons_of_mem _ hmem)

theorem content_of_agreed {l : List (PublisherRecord urls)} {r : Option (ServiceInstance urls)}
    (h : agreed (some (x, canonicalPayload x)) l = .ok r) :
  r = some x ∧ ∀ record ∈ l, record.serviceInstance = x
  := by
  induction l with
  | nil =>
      cases h
      exact ⟨rfl, fun _ hmem => absurd hmem List.not_mem_nil⟩
  | cons record rest ih =>
      rw [agreed] at h
      split at h
      · cases h
      · rename_i hcontent
        simp only [Option.any_some, ne_eq, decide_not, Bool.not_eq_eq_eq_not, Bool.not_true,
          decide_eq_false_iff_not, not_not] at hcontent
        have hx : record.serviceInstance = x := (canonicalPayload_injective hcontent).symm
        rw [hx] at h
        obtain ⟨hr, hrest⟩ := ih h
        refine ⟨hr, ?_⟩
        intro record' hmem
        obtain rfl | hmem := List.mem_cons.mp hmem
        · exact hx
        · exact hrest record' hmem

variable {id : JsonText} {records : IdentityPublishers urls}

theorem Agrees.logical (h : Agrees id records x) :
  logical (some records) = .ok (some x)
  := by
  obtain ⟨entries, hnodup⟩ := records
  obtain ⟨hnonempty, -, hcontent⟩ := h
  cases entries with
  | nil => exact absurd rfl hnonempty
  | cons e rest =>
      have hx : e.2.serviceInstance = x := hcontent e List.mem_cons_self
      simp only [Mdns.logical, JsMap.values, List.map_cons, agreed, Option.any_none,
        Bool.false_eq_true, if_false, hx]
      apply agreed_some
      intro record hmem
      obtain ⟨e', he', rfl⟩ := List.mem_map.mp hmem
      exact hcontent e' (List.mem_cons_of_mem _ he')

/-- The records of an identity agree when they have a logical instance. -/
theorem agrees_of_logical {r : Option (ServiceInstance urls)} (h : logical (some records) = .ok r)
    {e : JsString × PublisherRecord urls} (he : e ∈ records.entries) :
  r = some e.2.serviceInstance ∧
    Agrees (identityPreimage e.2.serviceInstance) records e.2.serviceInstance
  := by
  obtain ⟨entries, hnodup⟩ := records
  cases entries with
  | nil => exact absurd he List.not_mem_nil
  | cons e' rest =>
      simp only [logical, JsMap.values, List.map_cons, agreed, Option.any_none,
        Bool.false_eq_true, if_false] at h
      obtain ⟨hr, hrest⟩ := content_of_agreed h
      have hall : ∀ e'' ∈ e' :: rest, e''.2.serviceInstance = e'.2.serviceInstance := by
        intro e'' hmem
        obtain rfl | hmem := List.mem_cons.mp hmem
        · rfl
        · exact hrest _ (List.mem_map_of_mem hmem)
      rw [hall e he]
      exact ⟨hr, by simp, rfl, hall⟩

/-- The logical instance of an identity. -/
def contentOf (cache : MDNSCache urls) (id : JsonText) : Option (ServiceInstance urls) :=
  match logical (cache.get? id) with
  | .ok r => r
  | .error _ => none

variable {cache : MDNSCache urls}

theorem Consistent.logical (h : Consistent cache) (id : JsonText) :
  logical (cache.get? id) = .ok (contentOf cache id)
  := by
  rw [contentOf]
  cases hget : cache.get? id with
  | none => rfl
  | some records =>
      obtain ⟨x, hx⟩ := h _ (JsMap.get?_eq_some.mp hget)
      rw [hx.logical]

theorem Consistent.contentOf_eq_some (h : Consistent cache) :
  contentOf cache id = some x ↔ ∃ records, cache.get? id = some records ∧ Agrees id records x
  := by
  rw [contentOf]
  cases hget : cache.get? id with
  | none => simp [Mdns.logical]
  | some records =>
      obtain ⟨y, hy⟩ := h _ (JsMap.get?_eq_some.mp hget)
      rw [hy.logical]
      constructor
      · rintro ⟨⟩
        exact ⟨records, rfl, hy⟩
      · rintro ⟨_, ⟨⟩, hx⟩
        have hxy := hx.logical.symm.trans hy.logical
        cases hxy
        rfl

/-! ### Instances -/

/-- What the instances of a name are. -/
theorem named_eq {l : List (JsonText × IdentityPublishers urls)}
    (hnodup : (l.map Prod.fst).Nodup) (h : ∀ e ∈ l, ∃ x, Agrees e.1 e.2 x) (name : JsString) :
  ∃ xs, named name (l.map Prod.snd) = .ok xs ∧ DistinctIdentities xs ∧
    ∀ x, x ∈ xs ↔ x.name.val = name ∧ ∃ e ∈ l, Agrees e.1 e.2 x
  := by
  induction l with
  | nil => exact ⟨[], rfl, .nil, fun x => by simp⟩
  | cons e rest ih =>
      obtain ⟨y, hy⟩ := h e List.mem_cons_self
      rw [List.map_cons, List.nodup_cons] at hnodup
      obtain ⟨xs, hxs, hdistinct, hmem⟩ := ih hnodup.2 fun e' he' =>
        h e' (List.mem_cons_of_mem _ he')
      have hunique : ∀ {x}, Agrees e.1 e.2 x → x = y := by
        intro x hx
        have hxy := hx.logical.symm.trans hy.logical
        cases hxy
        rfl
      have hnew : identity y ∉ xs.map identity := by
        intro hmem'
        obtain ⟨x, hx, hxy⟩ := List.mem_map.mp hmem'
        obtain ⟨-, e', he', hagrees⟩ := (hmem x).mp hx
        apply hnodup.1
        rw [← hy.identity, identityPreimage, ← hxy, ← identityPreimage, hagrees.identity]
        exact List.mem_map_of_mem he'
      simp only [named, List.map_cons, hy.logical, hxs, bind, Except.bind]
      by_cases hname : y.name.val = name
      · rw [if_pos hname]
        refine ⟨_, rfl, List.nodup_cons.mpr ⟨hnew, hdistinct⟩, ?_⟩
        intro x
        rw [List.mem_cons, hmem]
        constructor
        · rintro (rfl | ⟨hx, e', he', hagrees⟩)
          · exact ⟨hname, e, List.mem_cons_self, hy⟩
          · exact ⟨hx, e', List.mem_cons_of_mem _ he', hagrees⟩
        · rintro ⟨hx, e', he', hagrees⟩
          obtain rfl | he' := List.mem_cons.mp he'
          · exact .inl (hunique hagrees)
          · exact .inr ⟨hx, e', he', hagrees⟩
      · rw [if_neg hname]
        refine ⟨_, rfl, hdistinct, ?_⟩
        intro x
        rw [hmem]
        constructor
        · rintro ⟨hx, e', he', hagrees⟩
          exact ⟨hx, e', List.mem_cons_of_mem _ he', hagrees⟩
        · rintro ⟨hx, e', he', hagrees⟩
          obtain rfl | he' := List.mem_cons.mp he'
          · rw [hunique hagrees] at hx
            exact absurd hx hname
          · exact ⟨hx, e', he', hagrees⟩

theorem Consistent.instances_eq (h : Consistent cache) {name : JsString}
    (hname : name.isEmpty = false) :
  ∃ xs, instances cache name = .ok xs ∧ DistinctIdentities xs ∧
    (∀ x, x ∈ xs ↔ x.name.val = name ∧ contentOf cache (identityPreimage x) = some x) ∧
    sortInstances xs = xs
  := by
  obtain ⟨xs, hxs, hdistinct, hmem⟩ := named_eq cache.nodup h name
  have hperm := sortInstances_perm xs
  have hdistinct' : DistinctIdentities (sortInstances xs) :=
    (hperm.map identity).nodup_iff.mpr hdistinct
  refine ⟨sortInstances xs, ?_, hdistinct', ?_, sortInstances_congr hdistinct' hperm⟩
  · rw [instances, if_neg (by simp [hname]), JsMap.values, hxs]
    exact snapshotServiceInstances_eq hdistinct
  · intro x
    rw [hperm.mem_iff, hmem, h.contentOf_eq_some]
    apply and_congr_right
    rintro -
    constructor
    · rintro ⟨⟨id, records⟩, he, hagrees⟩
      obtain rfl : identityPreimage x = id := hagrees.identity
      exact ⟨records, JsMap.get?_eq_some.mpr he, hagrees⟩
    · rintro ⟨records, hget, hagrees⟩
      exact ⟨_, JsMap.get?_eq_some.mp hget, hagrees⟩

/-- The instances of a name differ when those with a logical identity of this name do. -/
theorem instances_eq_iff {cache' : MDNSCache urls} (h : Consistent cache) (h' : Consistent cache')
    (name : Key) :
  instances cache name.val = instances cache' name.val ↔
    ∀ x : ServiceInstance urls, x.name = name →
      (contentOf cache (identityPreimage x) = some x ↔
        contentOf cache' (identityPreimage x) = some x)
  := by
  obtain ⟨xs, hxs, hdistinct, hmem, hsorted⟩ := h.instances_eq (name.property.2 rfl)
  obtain ⟨xs', hxs', hdistinct', hmem', hsorted'⟩ := h'.instances_eq (name.property.2 rfl)
  simp only [← Subtype.ext_iff] at hmem hmem'
  rw [hxs, hxs', Except.ok.injEq]
  constructor
  · rintro rfl x hname
    have hiff := (hmem x).symm.trans (hmem' x)
    simpa [hname] using hiff
  · intro hiff
    rw [← hsorted, ← hsorted']
    apply sortInstances_congr hdistinct
    apply (List.perm_ext_iff_of_nodup (.of_map _ hdistinct) (.of_map _ hdistinct')).mpr
    intro x
    rw [hmem, hmem']
    apply and_congr_right
    exact hiff x

/-! ### Observing -/

theorem Agrees.set (h : Agrees id records x) (publisher : JsString) (expiresAt : JsNumber) :
  Agrees id (records.set publisher ⟨x, expiresAt⟩) x
  := by
  have hmem : (publisher, ⟨x, expiresAt⟩) ∈ (records.set publisher ⟨x, expiresAt⟩).entries := by
    rw [← JsMap.get?_eq_some, JsMap.get?_set, if_pos rfl]
  refine ⟨List.ne_nil_of_mem hmem, h.identity, ?_⟩
  rintro ⟨p, record⟩ he
  rw [← JsMap.get?_eq_some, JsMap.get?_set] at he
  split at he
  · cases he
    rfl
  · exact h.content _ (JsMap.get?_eq_some.mp he)

/-- A cache in which the records of one identity are replaced. -/
theorem Consistent.set (h : Consistent cache) (hx : Agrees id records x) :
  Consistent (cache.set id records) ∧
    ∀ id', contentOf (cache.set id records) id' =
      if id' = id then some x else contentOf cache id'
  := by
  have hconsistent : Consistent (cache.set id records) := by
    rintro ⟨id', records'⟩ he
    rw [← JsMap.get?_eq_some, JsMap.get?_set] at he
    split at he
    · rename_i hid
      cases he
      exact ⟨x, hid ▸ hx⟩
    · exact h _ (JsMap.get?_eq_some.mp he)
  refine ⟨hconsistent, ?_⟩
  intro id'
  rw [contentOf, JsMap.get?_set]
  by_cases hid : id' = id
  · rw [if_pos hid, if_pos hid, hx.logical]
  · rw [if_neg hid, if_neg hid, contentOf]

/-- What a call that returns names changes: the content of identities, whose names it
returns. -/
structure Reports (cache cache' : MDNSCache urls) (names : List Key) : Prop where
  consistent : Consistent cache'
  names : ∀ name, name ∈ names ↔ instances cache name.val ≠ instances cache' name.val

theorem Consistent.reports_same {cache' : MDNSCache urls} (h : Consistent cache)
    (h' : Consistent cache') (hsame : ∀ id, contentOf cache' id = contentOf cache id) :
  Reports cache cache' []
  := by
  refine ⟨h', ?_⟩
  intro name
  rw [ne_eq, instances_eq_iff h h']
  simp [hsame]

theorem withdraw_reports (plus : Plus) (h : Consistent cache) (publisher : JsString)
    (x : ServiceInstance urls) (now : JsNumber) :
  Reports cache (withdraw plus cache publisher x now) []
  := by
  have hrefl : Reports cache cache [] := h.reports_same h fun _ => rfl
  rw [withdraw]
  split
  · exact hrefl
  · rename_i records hget
    split
    · exact hrefl
    · rename_i previous hprevious
      split
      · exact hrefl
      · obtain ⟨y, hy⟩ := h _ (JsMap.get?_eq_some.mp hget)
        have hcontent : previous.serviceInstance = y :=
          hy.content _ (JsMap.get?_eq_some.mp hprevious)
        have hagrees : Agrees (identityPreimage x)
            (records.set publisher (goodbye plus now previous)) y := by
          rw [goodbye, hcontent]
          exact hy.set _ _
        obtain ⟨hconsistent, hset⟩ := h.set hagrees
        apply h.reports_same hconsistent
        intro id
        rw [hset]
        split
        · rename_i hid
          rw [hid]
          exact (h.contentOf_eq_some.mpr ⟨records, hget, hy⟩).symm
        · rfl

/-- A name is reported when the content of an identity changes. -/
theorem Consistent.reports_set (h : Consistent cache) (hx : Agrees (identityPreimage x) records x) :
  Reports cache (cache.set (identityPreimage x) records)
    (if changed (contentOf cache (identityPreimage x)) (some x) then [x.name] else [])
  := by
  obtain ⟨hconsistent, hset⟩ := h.set hx
  have hchanged : changed (contentOf cache (identityPreimage x)) (some x) = true ↔
      contentOf cache (identityPreimage x) ≠ some x := by
    cases contentOf cache (identityPreimage x) with
    | none => simp [changed]
    | some y => simp [changed, canonicalPayload_injective.eq_iff]
  by_cases hsame : contentOf cache (identityPreimage x) = some x
  · rw [if_neg (by simpa [hchanged] using hsame)]
    apply h.reports_same hconsistent
    intro id
    rw [hset]
    split
    · rename_i hid
      rw [hid, hsame]
    · rfl
  · rw [if_pos (hchanged.mpr hsame)]
    refine ⟨hconsistent, ?_⟩
    intro name
    rw [ne_eq, instances_eq_iff h hconsistent, List.mem_singleton]
    constructor
    · rintro rfl hiff
      apply hsame
      rw [hiff x rfl, hset, if_pos rfl]
    · intro hdiffer
      by_contra hname
      apply hdiffer
      intro y hy
      rw [hset]
      split
      · rename_i hid
        have hxy : y.name = x.name := (identity_eq_iff.mp hid).1
        exact absurd (hy.symm.trans hxy) hname
      · rfl

/-- An observation that throws leaves the cache as it was. -/
theorem restore_set (publisher : JsString) (record : PublisherRecord urls)
    (hnonempty : ∀ records, cache.get? id = some records → records.entries ≠ []) :
  restore (cache.set id (((cache.get? id).getD .empty).set publisher record)) publisher id
    (cache.get? id).isNone (((cache.get? id).getD .empty).set publisher record)
    ((cache.get? id).bind (fun records => records.get? publisher)) = cache
  := by
  simp only [restore]
  cases hget : cache.get? id with
  | none =>
      rw [if_pos (by simp)]
      exact JsMap.delete_set_of_get? _ hget
  | some records =>
      have hne : records.entries ≠ [] := hnonempty records hget
      simp only [Option.isNone_some, Bool.false_eq_true, Option.getD_some, Option.bind_some,
        false_or, List.isEmpty_iff]
      cases hprevious : records.get? publisher with
      | none =>
          simp only [JsMap.delete_set_of_get? _ hprevious, hne, if_false]
          exact JsMap.set_set_of_get? _ hget
      | some previous =>
          simp only [JsMap.set_set_of_get? _ hprevious, hne, if_false]
          exact JsMap.set_set_of_get? _ hget

/-- An observation throws and leaves the cache as it was, or reports what it changes. -/
theorem observe_spec (plus : Plus) (h : Consistent cache) (publisher : JsString)
    (value : ServiceInstanceInput) (ttlSeconds nowMs : JsNumber) :
  (∃ e, observe plus cache publisher value ttlSeconds nowMs = (.error e, cache)) ∨
    ∃ names cache', observe plus cache publisher value ttlSeconds nowMs = (.ok names, cache') ∧
      Reports cache cache' names
  := by
  rw [observe]
  split
  · exact .inl ⟨_, rfl⟩
  · rename_i x ttl now hcheck
    dsimp only
    rw [h.logical]
    dsimp only
    split
    · exact .inr ⟨_, _, rfl, withdraw_reports plus h publisher x now⟩
    · split
      · rename_i after hafter
        have hmem : (publisher, (⟨x, plus now (ttl * 1000)⟩ : PublisherRecord urls)) ∈
            (((cache.get? (identityPreimage x)).getD .empty).set publisher
              ⟨x, plus now (ttl * 1000)⟩).entries := by
          rw [← JsMap.get?_eq_some, JsMap.get?_set, if_pos rfl]
        obtain ⟨rfl, hagrees⟩ := agrees_of_logical hafter hmem
        exact .inr ⟨_, _, rfl, h.reports_set hagrees⟩
      · rename_i e he
        left
        use e
        rw [restore_set]
        intro records hget
        obtain ⟨y, hy⟩ := h _ (JsMap.get?_eq_some.mp hget)
        exact hy.nonempty

/-! ### Expiry -/

theorem Agrees.retain (h : Agrees id records x) (now : JsNumber)
    (hne : (retain now records).entries ≠ []) :
  Agrees id (retain now records) x
  := ⟨hne, h.identity, fun e he => h.content e (JsMap.mem_entries_filter.mp he).1⟩

/-- What expiry keeps, and the names it reports. -/
theorem expireEntries_spec (now : JsNumber) {l : List (JsonText × IdentityPublishers urls)}
    (h : ∀ e ∈ l, ∃ x, Agrees e.1 e.2 x) :
  ∃ names, (expireEntries now l).1 = .ok names ∧
    (∀ e, e ∈ (expireEntries now l).2 ↔
      ∃ records, (e.1, records) ∈ l ∧ e.2 = retain now records ∧ e.2.entries ≠ []) ∧
    ∀ name, name ∈ names ↔ ∃ e ∈ l, ∃ x, Agrees e.1 e.2 x ∧ x.name = name ∧
      (retain now e.2).entries = []
  := by
  induction l with
  | nil => exact ⟨[], rfl, fun e => by simp [expireEntries], fun name => by simp⟩
  | cons e rest ih =>
      obtain ⟨id, records⟩ := e
      obtain ⟨x, hx⟩ := h _ List.mem_cons_self
      obtain ⟨names, hnames, hkept, hreported⟩ := ih fun e' he' =>
        h e' (List.mem_cons_of_mem _ he')
      have hunique : ∀ {y}, Agrees id records y → y = x := by
        intro y hy
        have hxy := hy.logical.symm.trans hx.logical
        cases hxy
        rfl
      rw [expireEntries, hx.logical]
      dsimp only
      by_cases hempty : (retain now records).entries = []
      · -- every record of the identity is due
        have hlogical : logical (some (retain now records)) = .ok none := by
          rw [logical, JsMap.values, hempty]
          rfl
        rw [hlogical]
        refine ⟨x.name :: names, ?_, ?_, ?_⟩
        · simp [hnames, changed, Except.map]
        · intro e'
          simp only [hempty, List.isEmpty_nil, if_true, List.nil_append, hkept, List.mem_cons,
            Prod.mk.injEq]
          constructor
          · rintro ⟨records', hmem, heq, hne⟩
            exact ⟨records', .inr hmem, heq, hne⟩
          · rintro ⟨records', ⟨-, rfl⟩ | hmem, heq, hne⟩
            · rw [heq] at hne
              exact absurd hempty hne
            · exact ⟨records', hmem, heq, hne⟩
        · intro name
          rw [List.mem_cons, hreported]
          constructor
          · rintro (rfl | ⟨e', he', y, hy, hname, hdue⟩)
            · exact ⟨_, List.mem_cons_self, x, hx, rfl, hempty⟩
            · exact ⟨e', List.mem_cons_of_mem _ he', y, hy, hname, hdue⟩
          · rintro ⟨e', he', y, hy, hname, hdue⟩
            obtain rfl | he' := List.mem_cons.mp he'
            · left
              rw [← hname, hunique hy]
            · exact .inr ⟨e', he', y, hy, hname, hdue⟩
      · rw [(hx.retain now hempty).logical]
        refine ⟨names, ?_, ?_, ?_⟩
        · simp [hnames, changed, Except.map]
        · intro e'
          have hkeep : (if (retain now records).entries.isEmpty then []
              else [(id, retain now records)]) = [(id, retain now records)] :=
            if_neg (by simpa using hempty)
          simp only [hkeep, List.mem_append, List.mem_singleton, hkept]
          constructor
          · rintro (rfl | ⟨records', hmem, heq, hne⟩)
            · exact ⟨records, List.mem_cons_self, rfl, hempty⟩
            · exact ⟨records', List.mem_cons_of_mem _ hmem, heq, hne⟩
          · rintro ⟨records', hmem, heq, hne⟩
            obtain hmem | hmem := List.mem_cons.mp hmem
            · left
              cases hmem
              apply Prod.ext
              · rfl
              · exact heq
            · exact .inr ⟨records', hmem, heq, hne⟩
        · intro name
          rw [hreported]
          constructor
          · rintro ⟨e', he', y, hy, hname, hdue⟩
            exact ⟨e', List.mem_cons_of_mem _ he', y, hy, hname, hdue⟩
          · rintro ⟨e', he', y, hy, hname, hdue⟩
            obtain rfl | he' := List.mem_cons.mp he'
            · exact absurd hdue hempty
            · exact ⟨e', he', y, hy, hname, hdue⟩

theorem mem_sortNames {names : List Key} {name : Key} :
  name ∈ sortNames names ↔ name ∈ names
  := by
  rw [sortNames, (List.perm_insertionSort _ _).mem_iff, List.mem_dedup]

/-- Expiry throws for an invalid time only, and else reports what it changes. -/
theorem expire_spec (h : Consistent cache) (nowMs : JsNumber) :
  (nowMs.isFiniteNonnegative = false ∧ ∃ e, expire cache nowMs = (.error e, cache)) ∨
    ∃ names cache', expire cache nowMs = (.ok names, cache') ∧ Reports cache cache' names
  := by
  rw [expire, timestamp]
  cases htime : nowMs.isFiniteNonnegative with
  | false => exact .inl ⟨rfl, _, rfl⟩
  | true =>
      right
      obtain ⟨names, hnames, hkept, hreported⟩ := expireEntries_spec nowMs h
      simp only [if_true, hnames, Except.map]
      refine ⟨_, _, rfl, ?_⟩
      have hconsistent : Consistent (⟨(expireEntries nowMs cache.entries).2,
          cache.nodup.sublist (keys_expireEntries nowMs cache.entries)⟩ : MDNSCache urls) := by
        intro e he
        obtain ⟨records, hmem, heq, hne⟩ := (hkept e).mp he
        obtain ⟨x, hx⟩ := h _ hmem
        use x
        rw [heq] at hne ⊢
        exact hx.retain nowMs hne
      refine ⟨hconsistent, ?_⟩
      intro name
      rw [mem_sortNames, hreported, ne_eq, instances_eq_iff h hconsistent]
      -- an identity keeps its content exactly when one of its records is not due
      have hcontent : ∀ x : ServiceInstance urls, ∀ records,
          cache.get? (identityPreimage x) = some records → Agrees (identityPreimage x) records x →
          (contentOf (⟨(expireEntries nowMs cache.entries).2,
            cache.nodup.sublist (keys_expireEntries nowMs cache.entries)⟩ : MDNSCache urls)
              (identityPreimage x) = some x ↔ (retain nowMs records).entries ≠ []) := by
        intro x records hget hx
        rw [hconsistent.contentOf_eq_some]
        constructor
        · rintro ⟨records', hget', hx'⟩
          obtain ⟨records'', hmem, heq, hne⟩ := (hkept _).mp (JsMap.get?_eq_some.mp hget')
          have hrecords := JsMap.get?_eq_some.mpr hmem
          rw [hget] at hrecords
          cases hrecords
          rw [← heq]
          exact hne
        · intro hne
          refine ⟨retain nowMs records, ?_, hx.retain nowMs hne⟩
          rw [JsMap.get?_eq_some]
          exact (hkept _).mpr ⟨records, JsMap.get?_eq_some.mp hget, rfl, hne⟩
      constructor
      · rintro ⟨⟨id, records⟩, he, x, hx, rfl, hdue⟩ hiff
        obtain rfl : identityPreimage x = id := hx.identity
        have hget := JsMap.get?_eq_some.mpr he
        have hsome : contentOf cache (identityPreimage x) = some x :=
          h.contentOf_eq_some.mpr ⟨records, hget, hx⟩
        exact (hcontent x records hget hx).mp ((hiff x rfl).mp hsome) hdue
      · intro hdiffer
        by_contra hnone
        apply hdiffer
        intro x hname
        constructor
        · intro hsome
          obtain ⟨records, hget, hx⟩ := h.contentOf_eq_some.mp hsome
          rw [hcontent x records hget hx]
          intro hdue
          exact hnone ⟨_, JsMap.get?_eq_some.mp hget, x, hx, hname, hdue⟩
        · intro hsome
          obtain ⟨records', hget', hx'⟩ := hconsistent.contentOf_eq_some.mp hsome
          obtain ⟨records, hmem, heq, hne⟩ := (hkept _).mp (JsMap.get?_eq_some.mp hget')
          obtain ⟨y, hy⟩ := h _ hmem
          dsimp only at hy heq
          have hxy := hx'.logical
          rw [heq, (hy.retain nowMs (heq ▸ hne)).logical] at hxy
          cases hxy
          exact h.contentOf_eq_some.mpr ⟨records, JsMap.get?_eq_some.mpr hmem, hy⟩

/-! ### Runs -/

/-- What a call establishes: it throws and leaves the cache as it was, or reports exactly
the names whose instances it changes. -/
theorem perform_spec (plus : Plus) (h : Consistent cache) (call : CacheCall) :
  (∃ e, perform plus cache call = (.error e, cache)) ∨
    ∃ names cache', perform plus cache call = (.ok names, cache') ∧ Consistent cache' ∧
      ∀ ns, names = some ns → Reports cache cache' ns
  := by
  cases call with
  | observe publisher value ttlSeconds nowMs =>
      rw [perform]
      obtain ⟨e, he⟩ | ⟨names, cache', heq, hreports⟩ :=
        observe_spec plus h publisher value ttlSeconds nowMs
      · rw [he]
        exact .inl ⟨e, rfl⟩
      · rw [heq]
        refine .inr ⟨_, _, rfl, hreports.consistent, ?_⟩
        rintro _ ⟨⟩
        exact hreports
  | expire nowMs =>
      rw [perform]
      obtain ⟨-, e, he⟩ | ⟨names, cache', heq, hreports⟩ := expire_spec h nowMs
      · rw [he]
        exact .inl ⟨e, rfl⟩
      · rw [heq]
        refine .inr ⟨_, _, rfl, hreports.consistent, ?_⟩
        rintro _ ⟨⟩
        exact hreports
  | close =>
      refine .inr ⟨none, .empty, rfl, ?_, nofun⟩
      exact fun _ he => absurd he List.not_mem_nil

theorem consistent_run (plus : Plus) (h : Consistent cache) (calls : List CacheCall) :
  Consistent (run plus cache calls)
  := by
  induction calls generalizing cache with
  | nil => exact h
  | cons call calls ih =>
      apply ih
      dsimp only
      obtain ⟨e, he⟩ | ⟨names, cache', heq, hconsistent, -⟩ := perform_spec plus h call
      · rw [he]
        exact h
      · rw [heq]
        exact hconsistent

/-- What holds of a cache: the publishers of an identity agree, reading and expiry throw for
invalid arguments only, and each call either throws and leaves the cache as it was or
returns exactly the names whose instances it changes. -/
structure CacheConsistent (plus : Plus) (cache : MDNSCache urls) : Prop where
  agree : ∀ id records, cache.get? id = some records → ∀ e ∈ records.entries,
    ∀ e' ∈ records.entries,
      canonicalPayload e.2.serviceInstance = canonicalPayload e'.2.serviceInstance
  instances : ∀ name : JsString, name.isEmpty = false → ∃ xs, instances cache name = .ok xs
  expire : ∀ nowMs : JsNumber, nowMs.isFiniteNonnegative = true →
    ∃ names, (expire cache nowMs).1 = .ok names
  throws : ∀ call e, (perform plus cache call).1 = .error e →
    (perform plus cache call).2 = cache
  returns : ∀ call names, (perform plus cache call).1 = .ok (some names) →
    ∀ name : Key, name ∈ names ↔
      Mdns.instances cache name.val ≠ Mdns.instances (perform plus cache call).2 name.val

/-- A cache is consistent after every sequence of calls. -/
theorem mdnsCache_consistent (plus : Plus) (calls : List CacheCall) :
  CacheConsistent plus (run plus (newMDNSCache : MDNSCache urls) calls)
  := by
  have h : Consistent (run plus (newMDNSCache : MDNSCache urls) calls) :=
    consistent_run plus (fun _ he => absurd he List.not_mem_nil) calls
  generalize run plus (newMDNSCache : MDNSCache urls) calls = cache at h
  constructor
  case agree =>
    intro id records hget e he e' he'
    obtain ⟨x, hx⟩ := h _ (JsMap.get?_eq_some.mp hget)
    rw [hx.content e he, hx.content e' he']
  case instances =>
    intro name hname
    obtain ⟨xs, hxs, -⟩ := h.instances_eq hname
    exact ⟨xs, hxs⟩
  case expire =>
    intro nowMs htime
    obtain ⟨hinvalid, -⟩ | ⟨names, cache', heq, -⟩ := expire_spec h nowMs
    · rw [htime] at hinvalid
      cases hinvalid
    · use names
      rw [heq]
  case throws =>
    intro call e he
    obtain ⟨e', heq⟩ | ⟨names, cache', heq, -⟩ := perform_spec plus h call
    · rw [heq]
    · rw [heq] at he
      cases he
  case returns =>
    intro call names hnames
    obtain ⟨e', heq⟩ | ⟨names', cache', heq, -, hreports⟩ := perform_spec plus h call
    · rw [heq] at hnames
      cases hnames
    · rw [heq] at hnames ⊢
      cases hnames
      exact (hreports names rfl).names

end Registry.Mdns
