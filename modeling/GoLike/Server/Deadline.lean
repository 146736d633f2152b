import GoLike.Transport.MetadataHeader
import Mathlib.Algebra.Order.Floor.Ring

/-!
# Deadlines from client to server

A client sends the time that is left until its deadline, in whole milliseconds, and the server sets
the deadline of the request from its own clock. The server refuses a header that is not a safe
integer before it looks at the request; it builds the time of the deadline where an endpoint is
called, and times have a smaller range than safe integers.
-/

open JsString Transport

/-! ### The client -/

namespace Client

/-- The time value of a date; none when the date is not valid. -/
abbrev DateValue : Type := Option ℤ

/-- The header of the time that is left at a reading of the clock; none when there is no deadline,
or when the time that is left is not a safe integer. -/
def timeoutHeaderValue (deadline : Option DateValue) (now : ℤ) : Option JsString :=
  match deadline with
  | none => none
  | some none => none
  | some (some time) =>
      let remaining := time - now
      if remaining ≤ 0 then some (ofNat 0)
      else
        let milliseconds := ⌈remaining⌉
        if milliseconds.toNat ≤ JsNumber.MaxSafeInteger then some (ofNat milliseconds.toNat)
        else none

end Client

namespace Server

/-! ### The server -/

/-- A failure that is answered to the client. -/
structure Refusal where
  code : String
  message : String
  status : ℕ
  deriving DecidableEq

/-- What a step of a request throws. -/
inductive Thrown where
  | serviceError (refusal : Refusal)
  | rangeError (message : String)
  deriving DecidableEq

def invalidTimeout : Refusal := ⟨"invalid_request", "invalid timeout header", 400⟩

def Refusal.internalServiceError : Refusal := ⟨"internal", "internal service error", 500⟩

/-- The failure of the response to what was thrown. -/
def failureResponse : Thrown → Refusal
  | .serviceError refusal => refusal
  | .rangeError _ => Refusal.internalServiceError

/-- Read the header of the timeout; none when it is absent. -/
def timeoutMilliseconds (header : Option JsString) : Except Thrown (Option ℕ) :=
  match header with
  | none => .ok none
  | some value =>
      if value.isDecimal = false then .error (.serviceError invalidTimeout)
      else if JsNumber.MaxSafeInteger < value.decimalValue then
        .error (.serviceError invalidTimeout)
      else .ok (some value.decimalValue)

/-- The largest time value of a date. -/
def maximumTimeClip : ℤ := 8640000000000000

/-- The date of a time value; it is not valid outside the range of dates. -/
def newDate (time : ℤ) : Client.DateValue :=
  if -maximumTimeClip ≤ time ∧ time ≤ maximumTimeClip then some time else none

/-- The deadline of a child context that is given one: an earlier one of the parent stays. -/
def withDeadline (parent : Option ℤ) (deadline : Client.DateValue) : Except Thrown ℤ :=
  match deadline with
  | none => .error (.rangeError "deadline must be a valid finite Date")
  | some requestedEpoch =>
      match parent with
      | none => .ok requestedEpoch
      | some parentEpoch =>
          if parentEpoch < requestedEpoch then .ok parentEpoch else .ok requestedEpoch

/-- The context of a request, as far as a handler reads it here. -/
structure RequestContext (lower : UnicodeLowerCase) where
  deadline : Option ℤ
  metadata : Metadata.Snapshot lower

/-- Where a request leads to. -/
inductive Target where
  | endpoint (service name : JsString)
  /-- An unknown path or endpoint, a method or content type that is not allowed. -/
  | refused (refusal : Refusal)
  | health

structure Request where
  timeout : Option JsString
  metadata : Option JsString
  target : Target

/-- What becomes of a request. -/
inductive Outcome (lower : UnicodeLowerCase) where
  | refused (refusal : Refusal)
  | health
  | called (service name : JsString) (ctx : RequestContext lower)

variable (lower : UnicodeLowerCase) (numberValue : List UInt16 → JsNumber)

/-- Build the context of a request at a reading of the clock, below a context with or without a
deadline. -/
def requestContext (parent : Option ℤ) (now : ℤ) (request : Request) (timeoutMs : Option ℕ) :
    Except Thrown (RequestContext lower) :=
  match decodeMetadataHeader lower numberValue request.metadata with
  | .error _ =>
      .error (.serviceError ⟨"invalid_metadata", "invalid request metadata", 400⟩)
  | .ok metadata =>
      match timeoutMs with
      | none => .ok ⟨parent, metadata⟩
      | some timeout =>
          (withDeadline parent (newDate (now + timeout))).map fun deadline =>
            ⟨some deadline, metadata⟩

/-- Dispatch a request, up to the call of its handler. -/
def dispatch (parent : Option ℤ) (now : ℤ) (request : Request) : Outcome lower :=
  match timeoutMilliseconds request.timeout with
  | .error thrown => .refused (failureResponse thrown)
  | .ok timeoutMs =>
      match request.target with
      | .refused refusal => .refused refusal
      | .health => .health
      | .endpoint service name =>
          match requestContext lower numberValue parent now request timeoutMs with
          | .error thrown => .refused (failureResponse thrown)
          | .ok ctx => .called service name ctx

/-! ### Headers -/

/-- A header is read exactly when it is the decimal string of a safe integer. -/
theorem timeoutMilliseconds_eq_ok {value : JsString} {timeout : Option ℕ} :
  timeoutMilliseconds (some value) = .ok timeout ↔
    ∃ n, timeout = some n ∧ n ≤ JsNumber.MaxSafeInteger ∧ value = ofNat n
  := by
  rw [timeoutMilliseconds]
  constructor
  · intro h
    split at h
    case isTrue => cases h
    case isFalse hdecimal =>
      split at h
      case isTrue => cases h
      case isFalse hsafe =>
        cases h
        rw [Bool.not_eq_false] at hdecimal
        exact ⟨_, rfl, not_lt.1 hsafe, (ofNat_decimalValue hdecimal).symm⟩
  · rintro ⟨n, rfl, hsafe, rfl⟩
    have hdecimal : ¬ (ofNat n).isDecimal = false := by
      rw [isDecimal_ofNat]
      exact Bool.true_eq_false_eq_False
    rw [if_neg hdecimal, decimalValue_ofNat, if_neg (not_lt.2 hsafe)]

/-- A header is read, or refused as an invalid request. -/
theorem timeoutMilliseconds_cases (value : JsString) :
  (∃ n, timeoutMilliseconds (some value) = .ok (some n)) ∨
    timeoutMilliseconds (some value) = .error (.serviceError invalidTimeout)
  := by
  rw [timeoutMilliseconds]
  split
  · exact .inr rfl
  · split
    · exact .inr rfl
    · exact .inl ⟨_, rfl⟩

/-- What a client sends is read by the server as what is left, which is nothing at the deadline. -/
theorem timeout_of_header {time now : ℤ} {header : JsString}
    (h : Client.timeoutHeaderValue (some (some time)) now = some header) :
  ∃ n : ℕ, timeoutMilliseconds (some header) = .ok (some n) ∧ (n : ℤ) = max (time - now) 0
  := by
  rw [Client.timeoutHeaderValue] at h
  dsimp only at h
  split at h
  case isTrue hended =>
    cases h
    refine ⟨0, timeoutMilliseconds_eq_ok.2 ⟨0, rfl, Nat.zero_le _, rfl⟩, ?_⟩
    omega
  case isFalse hleft =>
    rw [Int.ceil_int, id] at h
    split at h
    case isFalse => cases h
    case isTrue hsafe =>
      cases h
      refine ⟨_, timeoutMilliseconds_eq_ok.2 ⟨_, rfl, hsafe, rfl⟩, ?_⟩
      omega

/-! ### Deadlines -/

variable {lower} {numberValue}

/-- The deadline that a request gets below a context. -/
def childDeadline (parent : Option ℤ) (deadline : ℤ) : ℤ :=
  match parent with
  | none => deadline
  | some parentEpoch => min parentEpoch deadline

theorem withDeadline_some (parent : Option ℤ) (deadline : ℤ) :
  withDeadline parent (some deadline) = .ok (childDeadline parent deadline)
  := by
  cases parent with
  | none => rfl
  | some parentEpoch =>
      rw [withDeadline, childDeadline]
      split
      · rename_i hlt
        rw [min_eq_left hlt.le]
      · rename_i hge
        rw [min_eq_right (not_lt.1 hge)]

/-- A request with a timeout that is read is called, or fails because its time is not that of a
date. -/
theorem dispatch_endpoint {parent : Option ℤ} {now : ℤ} {header : JsString}
    {metadataHeader : Option JsString} {service name : JsString} {n : ℕ}
    {m : Metadata.Snapshot lower} (hnow : -maximumTimeClip ≤ now)
    (hheader : timeoutMilliseconds (some header) = .ok (some n))
    (hmetadata : decodeMetadataHeader lower numberValue metadataHeader = .ok m) :
  dispatch lower numberValue parent now ⟨some header, metadataHeader, .endpoint service name⟩ =
    if now + n ≤ maximumTimeClip then
      .called service name ⟨some (childDeadline parent (now + n)), m⟩
    else .refused Refusal.internalServiceError
  := by
  have hlower : -maximumTimeClip ≤ now + n := by omega
  rw [dispatch]
  simp only [hheader, requestContext, hmetadata]
  by_cases hrange : now + n ≤ maximumTimeClip
  · rw [newDate, if_pos ⟨hlower, hrange⟩, if_pos hrange, withDeadline_some]
    rfl
  · rw [newDate, if_neg (fun h => hrange h.2), if_neg hrange]
    rfl

/-- The request is refused for its timeout, or its handler is called with the deadline that is the
reading of the clock and the value of the header. -/
def Propagates (header : JsString) (now : ℤ) (outcome : Outcome lower) : Prop :=
  outcome = .refused invalidTimeout ∨
    ∃ n service name metadata, header = ofNat n ∧
      outcome = .called service name ⟨some (now + n), metadata⟩

/-- The time of the deadline is that of a date, and no deadline of the parent is before it. -/
def Representable (parent : Option ℤ) (now : ℤ) (n : ℕ) : Prop :=
  now + n ≤ maximumTimeClip ∧ ∀ parentEpoch, parent = some parentEpoch → now + n ≤ parentEpoch

theorem childDeadline_eq_iff {parent : Option ℤ} {deadline : ℤ} :
  childDeadline parent deadline = deadline ↔
    ∀ parentEpoch, parent = some parentEpoch → deadline ≤ parentEpoch
  := by
  cases parent with
  | none =>
      constructor
      · rintro - _ ⟨⟩
      · exact fun _ => rfl
  | some parentEpoch =>
      rw [childDeadline, min_eq_right_iff]
      constructor
      · rintro h _ ⟨⟩
        exact h
      · exact fun h => h parentEpoch rfl

theorem propagates_iff {parent : Option ℤ} {now : ℤ} {header : JsString}
    {metadataHeader : Option JsString} {service name : JsString}
    {m : Metadata.Snapshot lower} (hnow : -maximumTimeClip ≤ now)
    (hmetadata : decodeMetadataHeader lower numberValue metadataHeader = .ok m) :
  Propagates header now (dispatch lower numberValue parent now
      ⟨some header, metadataHeader, .endpoint service name⟩) ↔
    ∀ n, timeoutMilliseconds (some header) = .ok (some n) → Representable parent now n
  := by
  obtain ⟨n, hn⟩ | hrefused := timeoutMilliseconds_cases header
  · have hdispatch : dispatch lower numberValue parent now
        ⟨some header, metadataHeader, .endpoint service name⟩ =
          if now + n ≤ maximumTimeClip then
            .called service name ⟨some (childDeadline parent (now + n)), m⟩
          else .refused Refusal.internalServiceError := dispatch_endpoint hnow hn hmetadata
    obtain ⟨n', hsame, -, hvalue⟩ := timeoutMilliseconds_eq_ok.1 hn
    cases hsame
    rw [hdispatch]
    constructor
    · rintro (hrefused | ⟨n', service', name', metadata, hvalue', hcalled⟩)
      · split at hrefused
        · cases hrefused
        · injection hrefused with hsame
          exact absurd hsame (by decide)
      · rw [hvalue] at hvalue'
        have heq := ofNat_injective hvalue'
        subst heq
        split at hcalled
        case isFalse => cases hcalled
        case isTrue hrange =>
          intro n' hn'
          rw [hn] at hn'
          cases hn'
          injection hcalled with _ _ hctx
          injection hctx with hdeadline
          exact ⟨hrange, childDeadline_eq_iff.1 (Option.some.inj hdeadline)⟩
    · intro h
      obtain ⟨hrange, hparent⟩ := h n hn
      rw [if_pos hrange, childDeadline_eq_iff.2 hparent]
      exact .inr ⟨n, service, name, m, hvalue, rfl⟩
  · constructor
    · intro _ n hn
      rw [hrefused] at hn
      cases hn
    · intro _
      left
      rw [dispatch]
      simp only [hrefused, failureResponse]

/-- A header that a client sends is read by the server; the deadline that it stands for is not before
that of the client and at most a millisecond and the time between the readings after it, and is the
reading when that of the client had passed. A request with any header is refused for it, or its
handler is called with the deadline that the header stands for, exactly when the header is refused
or the deadline is the time of a date and the server's own context has none before it. -/
theorem deadline_propagates (lower : UnicodeLowerCase) (numberValue : List UInt16 → JsNumber) :
  (∀ (time sent received : ℤ) (header : JsString), sent ≤ received →
    Client.timeoutHeaderValue (some (some time)) sent = some header →
    ∃ n : ℕ, timeoutMilliseconds (some header) = .ok (some n) ∧
      (time ≤ sent → received + n = received) ∧
      (sent < time → time ≤ received + n ∧ received + n ≤ time + 1 + (received - sent))) ∧
  ∀ (parent : Option ℤ) (now : ℤ) (header : JsString) (metadataHeader : Option JsString)
    (m : Metadata.Snapshot lower) (service name : JsString), -maximumTimeClip ≤ now →
    decodeMetadataHeader lower numberValue metadataHeader = .ok m →
    (Propagates header now (dispatch lower numberValue parent now
        ⟨some header, metadataHeader, .endpoint service name⟩) ↔
      ∀ n, timeoutMilliseconds (some header) = .ok (some n) → Representable parent now n)
  := by
  constructor
  · intro time sent received header hreadings h
    obtain ⟨n, hn, hvalue⟩ := timeout_of_header h
    refine ⟨n, hn, ?_, ?_⟩
    · intro hended
      omega
    · intro hleft
      omega
  · intro parent now header metadataHeader m service name hnow hmetadata
    exact propagates_iff hnow hmetadata

/-- A request with the largest timeout that is read. -/
def longRequest : Request :=
  ⟨some (ofNat 9007199254740991), none, .endpoint (ofString "greeter") (ofString "hello")⟩

/-- A request with a timeout that is read is answered as an internal failure, and so is one with the
header of a client whose deadline is the last time of a date. -/
theorem longRequest_internal :
  (timeoutMilliseconds longRequest.timeout = .ok (some 9007199254740991) ∧
    dispatch UnicodeLowerCase.plain (fun _ => .nan) none 0 longRequest =
      .refused Refusal.internalServiceError ∧
    ¬ Propagates (ofNat 9007199254740991) 0
      (dispatch UnicodeLowerCase.plain (fun _ => .nan) none 0 longRequest)) ∧
  Client.timeoutHeaderValue (some (some maximumTimeClip)) 0 = some (ofNat 8640000000000000) ∧
    dispatch UnicodeLowerCase.plain (fun _ => .nan) none 1
      ⟨some (ofNat 8640000000000000), none, .endpoint (ofString "greeter") (ofString "hello")⟩ =
      .refused Refusal.internalServiceError
  := by
  have hread : ∀ n, n ≤ JsNumber.MaxSafeInteger →
      timeoutMilliseconds (some (ofNat n)) = .ok (some n) :=
    fun n hn => timeoutMilliseconds_eq_ok.2 ⟨n, rfl, hn, rfl⟩
  have hlong := hread 9007199254740991 (by decide)
  have hlast := hread 8640000000000000 (by decide)
  have hempty : decodeMetadataHeader UnicodeLowerCase.plain (fun _ => .nan) none =
      .ok emptyMetadata := rfl
  have hdispatch : dispatch UnicodeLowerCase.plain (fun _ => .nan) none 0 longRequest =
      .refused Refusal.internalServiceError := by
    rw [longRequest, dispatch_endpoint (by decide) hlong hempty, if_neg (by decide)]
  refine ⟨⟨hlong, hdispatch, ?_⟩, ?_, ?_⟩
  · rw [hdispatch]
    rintro (hrefused | ⟨n, service, name, metadata, -, hcalled⟩)
    · injection hrefused with hsame
      exact absurd hsame (by decide)
    · cases hcalled
  · rfl
  · rw [dispatch_endpoint (by decide) hlast hempty, if_neg (by decide)]

/-! ### Chains of calls -/

/-- A call of a handler, by a client and to a server with clocks and a context of their own. -/
structure Hop where
  sent : ℤ
  received : ℤ
  parent : Option ℤ
  metadata : Option JsString
  service : JsString
  name : JsString

variable (lower numberValue) in
/-- The deadline with which the handler of a call is called, when the caller has a deadline. -/
def callDeadline (deadline : Option ℤ) (hop : Hop) : Option (Option ℤ) :=
  match dispatch lower numberValue hop.parent hop.received
    ⟨Client.timeoutHeaderValue (deadline.map some) hop.sent, hop.metadata,
      .endpoint hop.service hop.name⟩ with
  | .called _ _ ctx => some ctx.deadline
  | _ => none

/-- What is left of the time of a caller, from the reading of the server on. -/
def nextDeadline (time : ℤ) (hop : Hop) : ℤ :=
  childDeadline hop.parent (hop.received + max (time - hop.sent) 0)

/-- A call behind the epoch goes on with what is left of the time of its caller. -/
theorem callDeadline_eq_some {time : ℤ} {hop : Hop} {deadline : Option ℤ}
    (htime : time ≤ maximumTimeClip) (hsent : 0 ≤ hop.sent ∧ hop.sent ≤ hop.received)
    (h : callDeadline lower numberValue (some time) hop = some deadline) :
  deadline = some (nextDeadline time hop) ∧ nextDeadline time hop ≤ maximumTimeClip
  := by
  have hclip : maximumTimeClip = 8640000000000000 := rfl
  have hheader : ∃ header, Client.timeoutHeaderValue (some (some time)) hop.sent = some header := by
    rw [Client.timeoutHeaderValue]
    dsimp only
    split
    · exact ⟨_, rfl⟩
    · rw [Int.ceil_int, id, if_pos (by rw [JsNumber.MaxSafeInteger]; omega)]
      exact ⟨_, rfl⟩
  obtain ⟨header, hheader⟩ := hheader
  obtain ⟨n, hn, hleft⟩ := timeout_of_header hheader
  rw [callDeadline, Option.map_some, hheader] at h
  cases hmetadata : decodeMetadataHeader lower numberValue hop.metadata with
  | error failure => simp [dispatch, hn, requestContext, hmetadata] at h
  | ok m =>
      rw [dispatch_endpoint (by omega) hn hmetadata, hleft] at h
      split at h
      case h_2 => cases h
      case h_1 hcalled =>
        split at hcalled
        case isFalse => cases hcalled
        case isTrue hdate =>
          cases hcalled
          cases h
          refine ⟨rfl, le_trans ?_ hdate⟩
          rw [nextDeadline]
          cases hop.parent with
          | none => exact le_rfl
          | some parent => exact min_le_right _ _

/-- Along a chain of calls, over the headers of clients and the clocks of servers, a handler has what
is left of the time of the first one, and no deadline before one that neither the first handler nor
a server has one before. -/
theorem chain_deadline (lower : UnicodeLowerCase) (numberValue : List UInt16 → JsNumber)
    (hops : List Hop) (time : ℤ) (deadline : Option ℤ) (htime : time ≤ maximumTimeClip)
    (hsent : ∀ hop ∈ hops, 0 ≤ hop.sent ∧ hop.sent ≤ hop.received)
    (h : hops.foldlM (callDeadline lower numberValue) (some time) = some deadline) :
  deadline = some (hops.foldl nextDeadline time) ∧
  ∀ earliest ≤ time, (∀ hop ∈ hops, ∀ parent ∈ hop.parent, earliest ≤ parent) →
    earliest ≤ hops.foldl nextDeadline time
  := by
  induction hops generalizing time with
  | nil =>
      cases h
      exact ⟨rfl, fun _ hearliest _ => hearliest⟩
  | cons hop hops ih =>
      rw [List.forall_mem_cons] at hsent
      rw [List.foldlM_cons] at h
      obtain ⟨next, hnext, h⟩ := Option.bind_eq_some_iff.1 h
      obtain ⟨rfl, hclip⟩ := callDeadline_eq_some htime hsent.1 hnext
      obtain ⟨hdeadline, hkept⟩ := ih _ hclip hsent.2 h
      refine ⟨hdeadline, ?_⟩
      intro earliest hearliest hparents
      rw [List.forall_mem_cons] at hparents
      refine hkept earliest ?_ hparents.2
      have hreceived : earliest ≤ hop.received + max (time - hop.sent) 0 := by omega
      rw [nextDeadline]
      cases hparent : hop.parent with
      | none => exact hreceived
      | some parent => exact le_min (hparents.1 parent hparent) hreceived

/-- A call with an hour left, to a server that has a quarter of it itself. -/
def quarterHop : Hop := ⟨0, 5, some 900000, none, ofString "greeter", ofString "hello"⟩

theorem chain_deadline_one :
  ∃ deadline, [quarterHop].foldlM (callDeadline UnicodeLowerCase.plain fun _ => .nan)
    (some 3600000) = some deadline ∧ deadline = some 900000
  := ⟨_, rfl, (chain_deadline _ (fun _ => .nan) [quarterHop] 3600000 _ (by decide) (by decide)
    rfl).1⟩

end Server
