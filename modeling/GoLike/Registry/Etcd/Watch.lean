import GoLike.Lib.ChangeLog
import GoLike.Registry.Etcd.Protocol
import GoLike.Registry.Outlet

/-!
# The etcd watcher

The watcher keeps a snapshot of the instances of a service. Its pump opens a watch from
the revision after the one it holds, lists the records again at each event, and opens the
next watch when the stream ends or a list fails.

The pump runs together with a server. The server commits revisions, and answers a watch
with frames whose order the steps below spell out.
-/

open Store ChangeLog

namespace Registry.Etcd

variable {urls : UrlParser}

/-! ### The pump -/

/-- The parts of a watch frame that are looked at. -/
structure WatchFrame where
  revision : ℕ
  created : Bool
  canceled : Bool
  compactRevision : ℕ
  events : Bool

/-- What the pump waits for. -/
inductive Phase where
  /-- The response to a watch request, and its first frame. -/
  | opening
  /-- The next frame. -/
  | reading
  /-- The response to a range request, after a cancellation or after events. -/
  | relisting (canceled : Bool)
  /-- The time of its next attempt. -/
  | waiting
  | ended
  deriving DecidableEq

/-- The pump reads from a stream. -/
def Phase.connected : Phase → Bool
  | reading => true
  | relisting _ => true
  | _ => false

/-- What a watcher is created with. -/
structure WatcherOptions where
  texts : TextFunctions
  keyPrefix : JsString
  serviceName : JsString
  bufferSize : ℕ
  retryInitialMs : ℕ
  retryMaximumMs : ℕ

/-- A watcher. -/
structure Watcher (urls : UrlParser) where
  outlet : Outlet urls Thrown
  revision : ℕ
  retryMs : ℕ
  phase : Phase

/-- The watcher with its initial snapshot. -/
def replacementWatcher (options : WatcherOptions) (initial : RangeSnapshot)
    (initialValues : Snapshot urls) : Watcher urls :=
  ⟨newOutlet options.bufferSize initialValues, initial.revision, options.retryInitialMs, .opening⟩

namespace Watcher

/-- Go on with the next connection, unless the watcher has ended. -/
def nextConnection (w : Watcher urls) : Watcher urls :=
  { w with phase := if w.outlet.aborted then .ended else .opening }

/-- Go on with the next frame, unless the watcher has ended. -/
def nextFrame (w : Watcher urls) : Watcher urls :=
  { w with phase := if w.outlet.aborted then .ended else .reading }

/-- Wait after a failure of availability; another failure is final. -/
def caught (w : Watcher urls) (value : Thrown) : Watcher urls :=
  if w.outlet.aborted then { w with phase := .ended }
  else if retryable value then { w with phase := .waiting }
  else { w with outlet := w.outlet.fail (.provider value), phase := .ended }

/-- The time of the next attempt has come. -/
def waited (options : WatcherOptions) (w : Watcher urls) : Watcher urls :=
  { w with retryMs := min options.retryMaximumMs (w.retryMs * 2) }.nextConnection

/-- Check the first frame of a stream. -/
def admitted (w : Watcher urls) (first : WatchFrame) : Watcher urls :=
  if !first.created && !first.canceled then
    w.caught (.registry (.protocol "etcd watch first frame is neither created nor canceled"))
  else if first.canceled && first.compactRevision = 0 then
    w.caught (.registry (.protocol "etcd watch was canceled without compaction"))
  else w.nextFrame

/-- Process a frame. -/
def frameRead (options : WatcherOptions) (w : Watcher urls) (frame : WatchFrame) :
    Watcher urls :=
  if frame.canceled then
    if frame.compactRevision = 0 then
      w.caught (.registry (.protocol "etcd watch was canceled without compaction"))
    else { w with phase := .relisting true }
  else if frame.events then { w with phase := .relisting false }
  else
    { w with
      revision := if frame.revision > w.revision then frame.revision else w.revision
      retryMs := options.retryInitialMs }.nextFrame

/-- Process the snapshot of a relist. -/
def relisted (options : WatcherOptions) (w : Watcher urls) (canceled : Bool)
    (snapshot : RangeSnapshot) : Watcher urls :=
  match serviceInstances options.texts options.keyPrefix options.serviceName snapshot with
  | .error e => w.caught (.registry e)
  | .ok next =>
      let w := { w with revision := snapshot.revision, outlet := w.outlet.publish next }
      if canceled then w.nextConnection
      else { w with retryMs := options.retryInitialMs }.nextFrame

end Watcher

/-! ### The server -/

/-- What each revision commits: the records under the prefix of the provider after it, or a
change of other keys. -/
abbrev Commits : Type := Timeline (List KeyValue)

/-- The response to a range request at a revision. -/
def snapshotAt (commits : Commits) (r : ℕ) : RangeSnapshot := ⟨r, stateAt [] commits r⟩

/-- What the server sends on a stream. -/
inductive Sent where
  | created (revision : ℕ)
  /-- The changes up to a revision that have not been sent before. -/
  | events (revision upTo : ℕ)
  | progress (revision : ℕ)
  | canceled (created : Bool) (revision compactRevision : ℕ)

/-- The frame as it is received. -/
def Sent.frame : Sent → WatchFrame
  | created revision => ⟨revision, true, false, 0, false⟩
  | events revision _ => ⟨revision, false, false, 0, true⟩
  | progress revision => ⟨revision, false, false, 0, false⟩
  | canceled isCreated revision compactRevision =>
      ⟨revision, isCreated, true, compactRevision, false⟩

/-- What the frames tell of the changes. -/
def frames : Frames Sent where
  carries
    | .events _ upTo => some upTo
    | _ => none
  marks
    | .progress revision => some revision
    | _ => none

/-- An open stream. -/
structure Stream where
  start : ℕ
  created : Bool
  /-- The changes up to this revision have been sent. -/
  sent : ℕ
  /-- The frames that have not been read. -/
  inbox : List Sent
  /-- The server has closed the stream. -/
  closed : Bool

/-- The stream after the server has sent a frame. -/
def Stream.send (stream : Stream) (frame : Sent) : Stream :=
  { stream with inbox := stream.inbox ++ [frame] }

/-- The server and the watcher. -/
structure World (urls : UrlParser) where
  /-- The revision of the store. -/
  revision : ℕ
  stream : Option Stream
  /-- The response to the range request of a relist. -/
  reply : Option RangeSnapshot
  watcher : Watcher urls
  /-- The revision of the last list. Nothing depends on it. -/
  listed : ℕ
  /-- The revision of the created frame that was read from the stream. Nothing depends on
  it. -/
  announced : ℕ

namespace World

/-- The watcher goes on. The stream is closed unless the watcher still reads it. -/
def proceed (s : World urls) (w : Watcher urls) : World urls :=
  { s with
    stream := if w.phase.connected then s.stream else none
    reply := none
    watcher := w }

/-- What has been announced after a frame is read. -/
def announce (s : World urls) : Sent → ℕ
  | .created revision => max s.announced revision
  | _ => s.announced

end World

/-! ### Steps -/

/-- What happens on an open stream without the watcher. -/
inductive Sends (commits : Commits) (revision : ℕ) : Stream → Stream → Prop where
  | created {stream : Stream} (hcreated : stream.created = false) :
      Sends commits revision stream ({ stream with created := true }.send (.created revision))
  | events {stream : Stream} {header upTo : ℕ} (hcreated : stream.created = true)
      (hchanged : ¬ Unchanged commits stream.sent upTo) (hupTo : upTo ≤ revision) :
      Sends commits revision stream ({ stream with sent := upTo }.send (.events header upTo))
  /-- A progress frame is sent after all changes up to its revision. -/
  | progress {stream : Stream} {header : ℕ} (hcreated : stream.created = true)
      (hheader : header ≤ revision) (hsent : Unchanged commits stream.sent header) :
      Sends commits revision stream (stream.send (.progress header))
  | canceled {stream : Stream} (created : Bool) (header compactRevision : ℕ) :
      Sends commits revision stream
        { stream.send (.canceled created header compactRevision) with closed := true }
  | closed {stream : Stream} : Sends commits revision stream { stream with closed := true }

/-- A step of the server or of the watcher. -/
inductive Step (options : WatcherOptions) (commits : Commits) :
    World urls → World urls → Prop where
  /-- The store commits its next revision. -/
  | commit {s : World urls} : Step options commits s { s with revision := s.revision + 1 }
  /-- The server accepts a watch from the revision after that of the watcher. -/
  | opened {s : World urls} (hphase : s.watcher.phase = .opening) (hstream : s.stream = none) :
      Step options commits s
        { s with
          stream := some ⟨s.watcher.revision + 1, false, s.watcher.revision, [], false⟩
          announced := 0 }
  /-- A watch is not opened. -/
  | openFailed {s : World urls} (hphase : s.watcher.phase = .opening) (value : Thrown) :
      Step options commits s (s.proceed (s.watcher.caught value))
  | sends {s : World urls} {stream stream' : Stream} (hstream : s.stream = some stream)
      (hopen : stream.closed = false) (hsends : Sends commits s.revision stream stream') :
      Step options commits s { s with stream := some stream' }
  /-- The first frame is read and remains to be processed. -/
  | admitted {s : World urls} {stream : Stream} {frame : Sent} {rest : List Sent}
      (hphase : s.watcher.phase = .opening) (hstream : s.stream = some stream)
      (hinbox : stream.inbox = frame :: rest) :
      Step options commits s (s.proceed (s.watcher.admitted frame.frame))
  | frameRead {s : World urls} {stream : Stream} {frame : Sent} {rest : List Sent}
      (hphase : s.watcher.phase = .reading) (hstream : s.stream = some stream)
      (hinbox : stream.inbox = frame :: rest) :
      Step options commits s
        (World.proceed
          { s with stream := some { stream with inbox := rest }, announced := s.announce frame }
          (s.watcher.frameRead options frame.frame))
  /-- The end of the stream is read. -/
  | streamEnded {s : World urls} {stream : Stream}
      (hphase : s.watcher.phase = .opening ∨ s.watcher.phase = .reading)
      (hstream : s.stream = some stream) (hinbox : stream.inbox = [])
      (hclosed : stream.closed = true) :
      Step options commits s (s.proceed (s.watcher.caught .transport))
  /-- The stream breaks, or carries what is not a frame. -/
  | streamBroke {s : World urls} (hphase : s.watcher.phase = .reading) (value : Thrown) :
      Step options commits s (s.proceed (s.watcher.caught value))
  /-- The server answers the range request of a relist. -/
  | listed {s : World urls} {canceled : Bool} (hphase : s.watcher.phase = .relisting canceled) :
      Step options commits s { s with reply := some (snapshotAt commits s.revision) }
  | relisted {s : World urls} {canceled : Bool} {snapshot : RangeSnapshot}
      (hphase : s.watcher.phase = .relisting canceled) (hreply : s.reply = some snapshot) :
      Step options commits s
        (World.proceed { s with listed := snapshot.revision }
          (s.watcher.relisted options canceled snapshot))
  | relistFailed {s : World urls} {canceled : Bool}
      (hphase : s.watcher.phase = .relisting canceled) (value : Thrown) :
      Step options commits s (s.proceed (s.watcher.caught value))
  | waited {s : World urls} (hphase : s.watcher.phase = .waiting) :
      Step options commits s { s with watcher := s.watcher.waited options }
  /-- The pump notices that the watcher has ended. -/
  | aborted {s : World urls} (haborted : s.watcher.outlet.aborted = true) :
      Step options commits s (s.proceed { s.watcher with phase := .ended })
  | call {s : World urls} (call : Outlet.Call) :
      Step options commits s
        { s with watcher := { s.watcher with outlet := s.watcher.outlet.perform call } }

/-- A watcher that has just been created. -/
inductive Starts (options : WatcherOptions) (commits : Commits) : World urls → Prop where
  | created (revision : ℕ) (initialValues : Snapshot urls)
      (hinitial : serviceInstances options.texts options.keyPrefix options.serviceName
        (snapshotAt commits revision) = .ok initialValues) :
      Starts options commits
        ⟨revision, none, none,
          replacementWatcher options (snapshotAt commits revision) initialValues, revision, 0⟩

end Registry.Etcd
