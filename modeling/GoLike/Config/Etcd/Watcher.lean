import GoLike.Config.Etcd.Protocol
import GoLike.Lib.ChangeLog

/-!
# The watcher of the etcd configuration source

A call of `next` watches the key from the revision after the one the watcher holds, until
a frame tells of a change. When the stream ends or a request fails, the call waits and
then reads the key, and resolves with the revision at which the key was read.

The watcher runs together with a server and with the application that calls it. The steps
are split into those that advance a call, and those that hinder it.
-/

open Store ChangeLog

namespace Config.Etcd

/-! ### The watcher -/

structure WatcherOptions where
  retryInitialMs : ℕ
  retryMaximumMs : ℕ

/-- What a call of `next` waits for. -/
inductive Phase where
  /-- The response to a watch request. -/
  | opening
  /-- The next frame. -/
  | reading
  /-- The response to a range request. -/
  | ranging
  /-- The time of its next attempt. -/
  | sleeping
  deriving DecidableEq

/-- A call of `next` that has not settled. -/
structure Next where
  /-- The context of the call has ended. -/
  ended : Bool
  recovering : Bool
  retryDelayMs : ℕ
  phase : Phase

/-- Why a call of `next` rejects. -/
inductive Rejection where
  | contextEnded
  | watcherStopped
  | alreadyWaiting
  | thrown (value : Thrown)

/-- How a call of `next` settles. -/
inductive Settlement where
  | resolved
  | rejected (reason : Rejection)

/-- A watcher. -/
structure Watcher where
  current : Revision
  waiting : Bool
  stopped : Bool
  /-- The call of `next` that has not settled. -/
  active : Option Next

/-- The watcher of changes after a candidate revision. -/
def createWatcher (candidate : Option JsString) : Except Thrown Watcher :=
  match candidate with
  | none => .ok ⟨.ofNat 0, false, false, none⟩
  | some text => do
      let current ← revision (some (.string text)) .watch
      return ⟨current, false, false, none⟩

namespace Watcher

/-- The call settles. -/
def settle (w : Watcher) (settlement : Settlement) : Watcher × Option Settlement :=
  ({ w with waiting := false, active := none }, some settlement)

/-- The call goes on. -/
def goOn (w : Watcher) (call : Next) : Watcher × Option Settlement :=
  ({ w with active := some call }, none)

/-- The call resolves, and the next one watches from a revision. -/
def moved (w : Watcher) (revision : Revision) : Watcher × Option Settlement :=
  { w with current := revision }.settle .resolved

/-- A call of `next`, in a context that may have ended. -/
def next (options : WatcherOptions) (w : Watcher) (ended : Bool) : Watcher × Option Settlement :=
  if w.stopped then (w, some (.rejected .watcherStopped))
  else if w.waiting then (w, some (.rejected .alreadyWaiting))
  else
    let w := { w with waiting := true }
    -- the context is checked before the block whose end resets `waiting`
    if ended then (w, some (.rejected .contextEnded))
    else w.goOn ⟨false, false, options.retryInitialMs, .opening⟩

/-- Wait after a failure of availability; another failure is final. -/
def caught (w : Watcher) (call : Next) (value : Thrown) : Watcher × Option Settlement :=
  if call.ended then w.settle (.rejected .contextEnded)
  else if w.stopped then w.settle (.rejected .watcherStopped)
  else if retryable value then w.goOn { call with recovering := true, phase := .sleeping }
  else w.settle (.rejected (.thrown value))

/-- What the call waits for is aborted, by its context or by the watcher. -/
def aborted (w : Watcher) (call : Next) : Watcher × Option Settlement :=
  w.settle (.rejected (if call.ended then .contextEnded else .watcherStopped))

/-- The time of the next attempt has come. -/
def waited (options : WatcherOptions) (w : Watcher) (call : Next) : Watcher × Option Settlement :=
  w.goOn { call with
    retryDelayMs := min options.retryMaximumMs (call.retryDelayMs * 2)
    phase := if call.recovering then .ranging else .opening }

/-- Process a line of the stream. -/
def frameRead (w : Watcher) (call : Next) (line : JsonText) : Watcher × Option Settlement :=
  match parseWatchFrame line with
  | .error e => w.caught call e
  | .ok none => w.goOn call
  | .ok (some (.changed revision)) => w.moved revision
  | .ok (some .compacted) => w.goOn { call with phase := .ranging }

/-- Process the response to a range request. -/
def ranged (w : Watcher) (call : Next) (response : Json) : Watcher × Option Settlement :=
  match parseRangeResponse response with
  | .error e => w.caught call e
  | .ok recovered => w.moved recovered.revision

end Watcher

/-! ### The server -/

/-- What each revision commits: the value of the key after it, or a change of other keys. -/
abbrev Commits : Type := Timeline (Option Json)

/-- A header with a revision. -/
def header (r : ℕ) : JsString × Json :=
  (name "header", .object [(name "revision", .string (JsString.ofNat r))])

/-- The response to a range request at a revision. -/
def rangeAt (commits : Commits) (r : ℕ) : Json :=
  match stateAt none commits r with
  | none => .object [header r]
  | some value => .object [header r, (name "kvs", .array [.object [(name "value", value)]])]

/-- What the server sends on a stream. -/
inductive Sent where
  | created (revision : ℕ)
  /-- The changes up to a revision that have not been sent before. -/
  | events (revision upTo : ℕ) (event : Json) (more : List Json)
  | progress (revision : ℕ)
  | canceled (revision compactRevision : ℕ)

/-- The frame as it is received. -/
def Sent.line : Sent → JsonText
  | created revision =>
      Json.stringify
        (.object [(name "result", .object [header revision, (name "created", .bool true)])])
  | events revision _ event more =>
      Json.stringify
        (.object [(name "result",
          .object [header revision, (name "events", .array (event :: more))])])
  | progress revision => Json.stringify (.object [(name "result", .object [header revision])])
  | canceled revision compactRevision =>
      Json.stringify
        (.object [(name "result",
          .object [header revision, (name "canceled", .bool true),
            (name "compact_revision", .string (JsString.ofNat compactRevision))])])

/-! ### What a response tells -/

variable {commits : Commits}

@[simp]
theorem property_object (properties : List (JsString × Json)) (key : String) :
  property (some (.object properties)) key = Json.property properties (name key)
  := rfl

theorem property_cons (key : String) (value : Json) (properties : List (JsString × Json)) :
  Json.property ((name key, value) :: properties) (name key) = some value
  := by simp [Json.property]

theorem responseRevision_header (r : ℕ) (properties : List (JsString × Json))
    (operation : Operation) :
  responseRevision (some (.object (header r :: properties))) operation = .ok (.ofNat r)
  := by
  have hheader : property (some (.object (header r :: properties))) "header" =
      some (.object [(name "revision", .string (JsString.ofNat r))]) := property_cons _ _ _
  rw [responseRevision, hheader, property_object, property_cons]
  simp [revision, Revision.ofNat]

/-- The response to a range request carries the revision at which it was answered. -/
theorem parseRangeResponse_rangeAt {r : ℕ} {result : RangeResult}
    (h : parseRangeResponse (rangeAt commits r) = .ok result) :
  result.revision = .ofNat r
  := by
  have hrevision : responseRevision (some (rangeAt commits r)) .range = .ok (.ofNat r) := by
    rw [rangeAt]
    split
    · exact responseRevision_header r _ _
    · exact responseRevision_header r _ _
  cases hstate : stateAt none commits r with
  | none =>
      have hresponse : rangeAt commits r = .object [header r] := by
        rw [rangeAt, hstate]
      rw [hresponse] at h hrevision
      have hparse : parseRangeResponse (.object [header r]) = .ok ⟨none, .ofNat r⟩ := by
        rw [parseRangeResponse, hrevision]
        rfl
      rw [hparse] at h
      cases h
      rfl
  | some value =>
      have hresponse : rangeAt commits r =
          .object [header r, (name "kvs", .array [.object [(name "value", value)]])] := by
        rw [rangeAt, hstate]
      rw [hresponse] at h hrevision
      have hparse : parseRangeResponse
          (.object [header r, (name "kvs", .array [.object [(name "value", value)]])]) =
          decodeBase64 (some value) .range >>= fun text => .ok ⟨some text, .ofNat r⟩ := by
        rw [parseRangeResponse, hrevision]
        rfl
      rw [hparse] at h
      obtain ⟨text, -, h⟩ := ok_of_bind h
      cases h
      rfl

@[simp]
theorem parseWatchFrame_created (r : ℕ) :
  parseWatchFrame (Sent.created r).line = .ok none
  := rfl

@[simp]
theorem parseWatchFrame_progress (r : ℕ) :
  parseWatchFrame (Sent.progress r).line = .ok none
  := rfl

/-- A frame of changes carries the revision of its header. -/
@[simp]
theorem parseWatchFrame_events (r upTo : ℕ) (event : Json) (more : List Json) :
  parseWatchFrame (Sent.events r upTo event more).line = .ok (some (.changed (.ofNat r)))
  := by
  change (do return some (.changed (← responseRevision
    (some (.object [header r, (name "events", .array (event :: more))])) .watch)) :
    Except Thrown (Option WatchOutcome)) = _
  rw [responseRevision_header]
  rfl

@[simp]
theorem parseWatchFrame_canceled (r compactRevision : ℕ) :
  parseWatchFrame (Sent.canceled r compactRevision).line =
    if 0 < compactRevision then .ok (some .compacted) else .error (.protocol .watch)
  := by
  have hcompact : revision (some (.string (JsString.ofNat compactRevision))) .watch =
      .ok (.ofNat compactRevision) := by
    simp [revision, Revision.ofNat]
  change (do
    if 0 < (← revision (some (.string (JsString.ofNat compactRevision))) .watch).value then
      return some .compacted
    else throw (.protocol .watch) : Except Thrown (Option WatchOutcome)) = _
  rw [hcompact]
  change (if 0 < (Revision.ofNat compactRevision).value then _ else _) = _
  rw [Revision.value_ofNat]
  rfl

/-- What the frames tell of the changes. -/
def frames : Frames Sent where
  carries
    | .events _ upTo _ _ => some upTo
    | _ => none
  marks _ := none

/-- An open stream. -/
structure Stream where
  created : Bool
  /-- The changes up to this revision have been sent. -/
  sent : ℕ
  /-- The frames that have not been read. -/
  inbox : List Sent
  /-- The server has closed the stream. -/
  closed : Bool

/-- The stream after the server has sent a frame. -/
def Stream.send (stream : Stream) (frame : Sent) : Stream :=
  { stream with inbox := stream.inbox ++ [frame] }

/-! ### The world -/

/-- The server and the watcher. -/
structure World where
  /-- The revision of the store. -/
  revision : ℕ
  stream : Option Stream
  /-- The response to the range request of the call. -/
  reply : Option Json
  watcher : Watcher
  /-- The calls of `next` that have settled, with the revision of the store at that time.
  Nothing depends on them. -/
  settled : List (ℕ × Settlement)

/-- The call reads from a stream. -/
def Watcher.reading (w : Watcher) : Bool := w.active.any (fun call => call.phase = .reading)

/-- What the application does. -/
inductive AppCall where
  /-- Call `next`, in a context that may have ended. -/
  | next (ended : Bool)
  | stop

namespace World

/-- A call of `next` has settled. -/
def record (s : World) (settlement : Option Settlement) : World :=
  { s with settled := s.settled ++ (settlement.map (s.revision, ·)).toList }

/-- The watcher goes on. The stream is closed unless a call still reads it. -/
def proceed (s : World) (result : Watcher × Option Settlement) : World :=
  { s with
    stream := if result.1.reading then s.stream else none
    reply := none
    watcher := result.1 }.record result.2

/-- The state after a call of the application. -/
def perform (options : WatcherOptions) (s : World) : AppCall → World
  | .next ended =>
      let result := s.watcher.next options ended
      { s with watcher := result.1 }.record result.2
  | .stop => { s with watcher := { s.watcher with stopped := true } }

end World

/-! ### Steps -/

/-- What the server does on an open stream that brings a call to its end. -/
inductive Sends (commits : Commits) (revision : ℕ) : Stream → Stream → Prop where
  | created {stream : Stream} (hcreated : stream.created = false) (header : ℕ) :
      Sends commits revision stream ({ stream with created := true }.send (.created header))
  | events {stream : Stream} {header upTo : ℕ} {event : Json} {more : List Json}
      (hcreated : stream.created = true) (hchanged : ¬ Unchanged commits stream.sent upTo)
      (hupTo : upTo ≤ revision) (hheader : header ≤ revision) :
      Sends commits revision stream
        ({ stream with sent := upTo }.send (.events header upTo event more))
  | canceled {stream : Stream} (header compactRevision : ℕ) :
      Sends commits revision stream
        { stream.send (.canceled header compactRevision) with closed := true }
  | closed {stream : Stream} : Sends commits revision stream { stream with closed := true }

/-- A step that advances a call of `next`. -/
inductive Advances (options : WatcherOptions) (commits : Commits) : World → World → Prop where
  /-- The application calls `next` again. -/
  | called {s : World} (hidle : s.watcher.active = none) :
      Advances options commits s (s.perform options (.next false))
  /-- The server accepts a watch from the revision after that of the watcher. -/
  | opened {s : World} {call : Next} (hactive : s.watcher.active = some call)
      (hphase : call.phase = .opening) :
      Advances options commits s
        { s with
          stream := some ⟨false, s.watcher.current.value, [], false⟩
          watcher := { s.watcher with active := some { call with phase := .reading } } }
  /-- A watch is not opened. -/
  | openFailed {s : World} {call : Next} (hactive : s.watcher.active = some call)
      (hphase : call.phase = .opening) (value : Thrown) :
      Advances options commits s (s.proceed (s.watcher.caught call value))
  | sends {s : World} {stream stream' : Stream} (hstream : s.stream = some stream)
      (hopen : stream.closed = false) (hsends : Sends commits s.revision stream stream') :
      Advances options commits s { s with stream := some stream' }
  | frameRead {s : World} {call : Next} {stream : Stream} {frame : Sent} {rest : List Sent}
      (hactive : s.watcher.active = some call) (hphase : call.phase = .reading)
      (hstream : s.stream = some stream) (hinbox : stream.inbox = frame :: rest) :
      Advances options commits s
        (World.proceed { s with stream := some { stream with inbox := rest } }
          (s.watcher.frameRead call frame.line))
  /-- The end of the stream is read. -/
  | streamEnded {s : World} {call : Next} {stream : Stream}
      (hactive : s.watcher.active = some call) (hphase : call.phase = .reading)
      (hstream : s.stream = some stream) (hinbox : stream.inbox = [])
      (hclosed : stream.closed = true) :
      Advances options commits s (s.proceed (s.watcher.caught call (.transport .watch)))
  /-- The stream breaks, or carries what is not a frame. -/
  | streamBroke {s : World} {call : Next} (hactive : s.watcher.active = some call)
      (hphase : call.phase = .reading) (value : Thrown) :
      Advances options commits s (s.proceed (s.watcher.caught call value))
  /-- The server answers a range request. -/
  | answered {s : World} {call : Next} (hactive : s.watcher.active = some call)
      (hphase : call.phase = .ranging) (hreply : s.reply = none) :
      Advances options commits s { s with reply := some (rangeAt commits s.revision) }
  | ranged {s : World} {call : Next} {response : Json} (hactive : s.watcher.active = some call)
      (hphase : call.phase = .ranging) (hreply : s.reply = some response) :
      Advances options commits s (s.proceed (s.watcher.ranged call response))
  | waited {s : World} {call : Next} (hactive : s.watcher.active = some call)
      (hphase : call.phase = .sleeping) :
      Advances options commits s (s.proceed (s.watcher.waited options call))
  /-- The call notices that its context has ended, or that the watcher was stopped. -/
  | aborted {s : World} {call : Next} (hactive : s.watcher.active = some call)
      (haborted : call.ended = true ∨ s.watcher.stopped = true) :
      Advances options commits s (s.proceed (s.watcher.aborted call))

/-- A step that may hinder a call of `next` any number of times. The application makes
the calls that are allowed. -/
inductive Hinders (options : WatcherOptions) (allowed : World → AppCall → Prop) :
    World → World → Prop where
  /-- The store commits its next revision. -/
  | commit {s : World} : Hinders options allowed s { s with revision := s.revision + 1 }
  | progress {s : World} {stream : Stream} (hstream : s.stream = some stream)
      (hopen : stream.closed = false) (header : ℕ) :
      Hinders options allowed s { s with stream := some (stream.send (.progress header)) }
  /-- The context of the call ends. -/
  | contextEnds {s : World} {call : Next} (hactive : s.watcher.active = some call) :
      Hinders options allowed s
        { s with watcher := { s.watcher with active := some { call with ended := true } } }
  | rangeFailed {s : World} {call : Next} (hactive : s.watcher.active = some call)
      (hphase : call.phase = .ranging) (value : Thrown) :
      Hinders options allowed s (s.proceed (s.watcher.caught call value))
  | call {s : World} (call : AppCall) (hallowed : allowed s call) :
      Hinders options allowed s (s.perform options call)

/-- A step of the server, of the watcher or of the application. -/
def Step (options : WatcherOptions) (commits : Commits) (allowed : World → AppCall → Prop)
    (s s' : World) : Prop :=
  Advances options commits s s' ∨ Hinders options allowed s s'

/-- The application calls the watcher in any way. -/
def anyCall : World → AppCall → Prop := fun _ _ => True

/-- A call of `next` that is neither rejected because the watcher was stopped nor because
it is waiting is made in a context that has not ended. -/
def liveCall (s : World) : AppCall → Prop
  | .next ended => s.watcher.stopped = false → s.watcher.waiting = false → ended = false
  | .stop => True

/-- A watcher that has just been created. -/
def start (revision : ℕ) (w : Watcher) : World := ⟨revision, none, none, w, []⟩

/-- A call of `next` has resolved at a revision of the store not before this one. -/
def World.Resolved (s : World) (r : ℕ) : Prop := ∃ t, (t, Settlement.resolved) ∈ s.settled ∧ r ≤ t

/-- The watcher was stopped, or a call of `next` has resolved since this revision, or has
thrown a failure that is not retryable. -/
def Signaled (r : ℕ) (s : World) : Prop :=
  s.watcher.stopped = true ∨ s.Resolved r ∨
    ∃ t value, (t, Settlement.rejected (.thrown value)) ∈ s.settled ∧ r ≤ t ∧
      retryable value = false

end Config.Etcd
