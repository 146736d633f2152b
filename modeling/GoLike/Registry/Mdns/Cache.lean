import GoLike.Lib.JsMap
import GoLike.Registry.Mdns.Canonical

/-!
# The mDNS cache

The cache holds what publishers have announced: for each identity the records of its
publishers, each with a time of expiry. The logical instance of an identity is the one its
publishers agree on.

The addition of times, which rounds, is a parameter.
-/

open Store

namespace Registry.Mdns

variable {urls : UrlParser}

/-! ### The state -/

/-- What one publisher has announced. -/
structure PublisherRecord (urls : UrlParser) where
  serviceInstance : ServiceInstance urls
  expiresAt : JsNumber

/-- The records of one identity, by publisher. -/
abbrev IdentityPublishers (urls : UrlParser) : Type := JsMap JsString (PublisherRecord urls)

/-- The records of a cache, by identity. -/
abbrev MDNSCache (urls : UrlParser) : Type := JsMap JsonText (IdentityPublishers urls)

/-- Validate a finite time. -/
def timestamp (value : JsNumber) : Except RegistryError JsNumber :=
  if value.isFiniteNonnegative then .ok value
  else .error (.rangeError "mDNS cache time must be finite and non-negative")

/-- The instance that all records have, given what the ones before them have. -/
def agreed : Option (ServiceInstance urls × JsonText) → List (PublisherRecord urls) →
    Except RegistryError (Option (ServiceInstance urls))
  | found, [] => .ok (found.map Prod.fst)
  | found, record :: rest =>
      let candidate := canonicalPayload record.serviceInstance
      if found.any (fun content => content.2 ≠ candidate) then
        .error (.protocol "mDNS identity-content collision")
      else agreed (some (record.serviceInstance, candidate)) rest

/-- The logical instance of an identity; conflicting publishers fail. -/
def logical (records : Option (IdentityPublishers urls)) :
    Except RegistryError (Option (ServiceInstance urls)) :=
  match records with
  | none => .ok none
  | some records => agreed none records.values

/-- The logical identity has changed. -/
def changed (before after : Option (ServiceInstance urls)) : Bool :=
  match before, after with
  | some before, some after => canonicalPayload before ≠ canonicalPayload after
  | none, none => false
  | _, _ => true

/-! ### Observing -/

/-- Validate the arguments of an observation. -/
def checkObserve (urls : UrlParser) (publisher : JsString) (value : ServiceInstanceInput)
    (ttlSeconds nowMs : JsNumber) : Except RegistryError (ServiceInstance urls × ℕ × JsNumber) := do
  if publisher.isEmpty then
    throw (.typeError "mDNS cache publisher must be non-empty")
  let ttl ← match ttlSeconds.toSafeNat? with
    | none => .error (.rangeError "mDNS cache TTL is out of range")
    | some ttl =>
        if ttl > 4294967 then .error (.rangeError "mDNS cache TTL is out of range") else .ok ttl
  let now ← timestamp nowMs
  let x ← snapshotServiceInstance urls value
  .ok (x, ttl, now)

/-- The addition of a time and a duration. -/
abbrev Plus : Type := JsNumber → ℕ → JsNumber

/-- A record that is withdrawn expires after one second. -/
def goodbye (plus : Plus) (now : JsNumber) (record : PublisherRecord urls) :
    PublisherRecord urls :=
  { record with expiresAt := record.expiresAt.min (plus now 1000) }

/-- Withdraw the record of a publisher if it has the content. -/
def withdraw (plus : Plus) (cache : MDNSCache urls) (publisher : JsString)
    (x : ServiceInstance urls) (now : JsNumber) : MDNSCache urls :=
  match cache.get? (identityPreimage x) with
  | none => cache
  | some records =>
      match records.get? publisher with
      | none => cache
      | some previous =>
          if canonicalPayload previous.serviceInstance ≠ canonicalPayload x then cache
          else
            cache.set (identityPreimage x) (records.set publisher (goodbye plus now previous))

/-- The cache after a record has been set and is taken back. -/
def restore (cache : MDNSCache urls) (publisher : JsString) (id : JsonText) (created : Bool)
    (records : IdentityPublishers urls) (previous : Option (PublisherRecord urls)) :
    MDNSCache urls :=
  let restored := match previous with
    | none => records.delete publisher
    | some previous => records.set publisher previous
  if created ∨ restored.entries.isEmpty then cache.delete id else cache.set id restored

/-- Observe the record of a publisher: the names of the services that have changed, and the
cache after it. -/
def observe (plus : Plus) (cache : MDNSCache urls) (publisher : JsString)
    (value : ServiceInstanceInput) (ttlSeconds nowMs : JsNumber) :
    Except RegistryError (List Key) × MDNSCache urls :=
  match checkObserve urls publisher value ttlSeconds nowMs with
  | .error e => (.error e, cache)
  | .ok (x, ttl, now) =>
      let id := identityPreimage x
      let found := cache.get? id
      match logical found with
      | .error e => (.error e, cache)
      | .ok before =>
          if ttl = 0 then (.ok [], withdraw plus cache publisher x now)
          else
            let records := (found.getD .empty).set publisher ⟨x, plus now (ttl * 1000)⟩
            let observed := cache.set id records
            match logical (some records) with
            | .ok after => (.ok (if changed before after then [x.name] else []), observed)
            | .error e =>
                (.error e, restore observed publisher id found.isNone records
                  (found.bind (fun records => records.get? publisher)))

/-! ### Expiry -/

/-- The records that are not due. -/
def retain (now : JsNumber) (records : IdentityPublishers urls) : IdentityPublishers urls :=
  records.filter (fun e => !e.2.expiresAt.le now)

/-- Expire the records of identities in order: what they keep, and the names of the
services that have changed. -/
def expireEntries (now : JsNumber) : List (JsonText × IdentityPublishers urls) →
    Except RegistryError (List Key) × List (JsonText × IdentityPublishers urls)
  | [] => (.ok [], [])
  | (id, records) :: rest =>
      match logical (some records) with
      | .error e => (.error e, (id, records) :: rest)
      | .ok before =>
          let retained := retain now records
          let kept := if retained.entries.isEmpty then [] else [(id, retained)]
          match logical (some retained) with
          | .error e => (.error e, kept ++ rest)
          | .ok after =>
              let result := expireEntries now rest
              let names := if changed before after then (before.map ServiceInstance.name).toList
                else []
              (result.1.map (names ++ ·), kept ++ result.2)

theorem keys_expireEntries (now : JsNumber) (l : List (JsonText × IdentityPublishers urls)) :
  ((expireEntries now l).2.map Prod.fst).Sublist (l.map Prod.fst)
  := by
  induction l with
  | nil => exact .slnil
  | cons e rest ih =>
      obtain ⟨id, records⟩ := e
      have hkept : ∀ (retained : IdentityPublishers urls) (rest' : List (JsonText × _)),
          (rest'.map Prod.fst).Sublist (rest.map Prod.fst) →
          (((if retained.entries.isEmpty then [] else [(id, retained)]) ++ rest').map
            Prod.fst).Sublist (((id, records) :: rest).map Prod.fst) := by
        intro retained rest' h
        split
        · exact h.cons _
        · exact h.cons_cons _
      rw [expireEntries]
      split
      · exact .refl _
      · dsimp only
        split
        · exact hkept _ _ (.refl _)
        · exact hkept _ _ ih

/-- Order names by their code units, without repetitions. -/
def sortNames (names : List Key) : List Key :=
  names.dedup.insertionSort (fun a b => a.val.units ≤ b.val.units)

/-- Expire every record that is due: the names of the services that have changed, and the
cache after it. -/
def expire (cache : MDNSCache urls) (nowMs : JsNumber) :
    Except RegistryError (List Key) × MDNSCache urls :=
  match timestamp nowMs with
  | .error e => (.error e, cache)
  | .ok now =>
      let result := expireEntries now cache.entries
      (result.1.map sortNames,
        ⟨result.2, cache.nodup.sublist (keys_expireEntries now cache.entries)⟩)

/-! ### Reading -/

/-- The logical instances with a name. -/
def named (name : JsString) : List (IdentityPublishers urls) →
    Except RegistryError (List (ServiceInstance urls))
  | [] => .ok []
  | records :: rest => do
      let found ← logical (some records)
      let others ← named name rest
      .ok (match found with
        | some x => if x.name.val = name then x :: others else others
        | none => others)

/-- The complete instances of one name. -/
def instances (cache : MDNSCache urls) (name : JsString) :
    Except RegistryError (List (ServiceInstance urls)) :=
  if name.isEmpty then .error (.typeError "mDNS cache service name must be non-empty")
  else do
    let found ← named name cache.values
    snapshotServiceInstances found

/-! ### Calls -/

/-- A call that changes a cache. -/
inductive CacheCall where
  | observe (publisher : JsString) (value : ServiceInstanceInput) (ttlSeconds nowMs : JsNumber)
  | expire (nowMs : JsNumber)
  | close

/-- What a call returns, the names of the services that have changed if it returns them,
and the cache after it. -/
def perform (plus : Plus) (cache : MDNSCache urls) :
    CacheCall → Except RegistryError (Option (List Key)) × MDNSCache urls
  | .observe publisher value ttlSeconds nowMs =>
      let result := observe plus cache publisher value ttlSeconds nowMs
      (result.1.map some, result.2)
  | .expire nowMs =>
      let result := expire cache nowMs
      (result.1.map some, result.2)
  | .close => (.ok none, .empty)

/-- A new cache. -/
def newMDNSCache : MDNSCache urls := .empty

/-- The cache after a sequence of calls. -/
def run (plus : Plus) (cache : MDNSCache urls) (calls : List CacheCall) : MDNSCache urls :=
  calls.foldl (fun cache call => (perform plus cache call).2) cache

end Registry.Mdns
