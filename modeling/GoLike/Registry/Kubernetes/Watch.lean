import GoLike.Lib.ChangeLog
import GoLike.Registry.Kubernetes.Codec
import GoLike.Registry.Outlet

/-!
# The Kubernetes watcher

The watcher keeps a snapshot of the instances of a service. It is admitted when it has
opened a watch from the version of its snapshot. Its pump then leaves a stream at each
change, lists the slices again, and opens a watch from the version of the list. A version
that the server has forgotten is answered by a list too.

The pump runs together with a server, which commits revisions and answers a watch with
frames whose order the steps below spell out.
-/

open Store ChangeLog

namespace Registry.Kubernetes

variable {urls : UrlParser}

/-! ### Failures -/

/-- What a request or a stream throws. -/
inductive Thrown where
  | deadlineExceeded
  | transport
  | http (status : ℕ)
  | registry (e : RegistryError)
  | other

/-- The failure may be retried. -/
def retryable : Thrown → Bool
  | .transport => true
  | .http status => status = 408 ∨ status = 429 ∨ status ≥ 500
  | _ => false

/-- The version of the watch has expired. -/
def gone : Thrown → Bool
  | .http status => status = 410
  | _ => false

/-! ### The pump -/

/-- A watch frame. -/
structure WatchFrame where
  resourceVersion : Option ℕ
  changed : Bool

/-- What the watcher waits for. -/
inductive Phase where
  /-- The response to the watch request of its admission. -/
  | admitting
  /-- The list after the version expired during its admission. -/
  | readmitting
  /-- Its admission has failed. -/
  | refused
  /-- The response to a watch request of its pump. -/
  | opening
  | reading
  /-- The list after a change. -/
  | relisting
  /-- The list that the handler of a failure waits for, after the version expired. -/
  | recovering
  | waiting
  | ended
  /-- The pump has thrown. -/
  | rejected
  deriving DecidableEq

/-- The watcher has been handed to its consumer. -/
def Phase.admitted : Phase → Bool
  | admitting => false
  | readmitting => false
  | refused => false
  | _ => true

/-- The watcher waits for a list. -/
def Phase.listing : Phase → Bool
  | readmitting => true
  | relisting => true
  | recovering => true
  | _ => false

/-- The pump no longer runs. -/
def Phase.final : Phase → Bool
  | refused => true
  | ended => true
  | rejected => true
  | _ => false

/-- What a watcher is created with. -/
structure WatcherOptions (urls : UrlParser) where
  decodeManagedSlice : DecodeManagedSlice urls
  serviceName : JsString
  bufferSize : ℕ
  retryInitialMs : ℕ
  retryMaximumMs : ℕ

/-- A watcher. -/
structure Watcher (urls : UrlParser) where
  outlet : Outlet urls Thrown
  revision : ℕ
  retryMs : ℕ
  phase : Phase

variable (options : WatcherOptions urls)

/-- The watcher with its initial snapshot, before its admission. -/
def replacementWatcher (initial : SliceList) (initialInstances : Snapshot urls) : Watcher urls where
  outlet := { newOutlet options.bufferSize initialInstances with queue := [] }
  revision := initial.resourceVersion
  retryMs := options.retryInitialMs
  phase := .admitting

namespace Watcher

/-- The first watch is opened. The context of the caller may be terminal. -/
def completeAdmission (w : Watcher urls) (terminal : Bool) : Watcher urls :=
  if terminal then { w with phase := .refused }
  else
    { w with
      outlet :=
        { w.outlet with queue := if w.outlet.current.isEmpty then [] else [w.outlet.current] }
      phase := .reading }

/-- The first watch is not opened. -/
def admissionFailed (w : Watcher urls) (value : Thrown) : Watcher urls :=
  { w with phase := if gone value then .readmitting else .refused }

/-- Process the list of the admission. -/
def readmitted (w : Watcher urls) (list : SliceList) : Watcher urls :=
  match serviceInstances options.decodeManagedSlice options.serviceName list with
  | .error _ => { w with phase := .refused }
  | .ok next =>
      { w with
        outlet := { w.outlet with current := next }
        revision := list.resourceVersion
        phase := .admitting }

/-- Go on with the next connection, unless the watcher has ended. -/
def nextConnection (w : Watcher urls) : Watcher urls :=
  { w with phase := if w.outlet.aborted then .ended else .opening }

/-- Go on with the next frame, unless the watcher has ended. -/
def nextFrame (w : Watcher urls) : Watcher urls :=
  { w with phase := if w.outlet.aborted then .ended else .reading }

/-- The handler of a failure. -/
def caught (w : Watcher urls) (value : Thrown) : Watcher urls :=
  if w.outlet.aborted then { w with phase := .ended }
  else if gone value then { w with phase := .recovering }
  else if retryable value then { w with phase := .waiting }
  else { w with outlet := w.outlet.fail (.provider value), phase := .ended }

/-- The time of the next attempt has come. -/
def waited (w : Watcher urls) : Watcher urls :=
  { w with retryMs := min options.retryMaximumMs (w.retryMs * 2) }.nextConnection

/-- Process a frame. -/
def frameRead (w : Watcher urls) (frame : WatchFrame) : Watcher urls :=
  if frame.changed then { w with phase := .relisting }
  else
    { w with
      revision := frame.resourceVersion.getD w.revision
      retryMs := options.retryInitialMs }.nextFrame

/-- The end of the stream is read. -/
def streamEnded (w : Watcher urls) : Watcher urls :=
  { w with retryMs := options.retryInitialMs }.nextConnection

/-- Publish the snapshot of a list. -/
def listed (w : Watcher urls) (list : SliceList) (next : Snapshot urls) : Watcher urls :=
  { w with
    outlet := w.outlet.publish next
    revision := list.resourceVersion
    retryMs := options.retryInitialMs }.nextConnection

/-- Process the list after a change. -/
def relisted (w : Watcher urls) (list : SliceList) : Watcher urls :=
  match serviceInstances options.decodeManagedSlice options.serviceName list with
  | .error e => w.caught (.registry e)
  | .ok next => w.listed options list next

/-- Process the list of the handler. What it throws, the pump throws. -/
def recovered (w : Watcher urls) (list : SliceList) : Watcher urls :=
  match serviceInstances options.decodeManagedSlice options.serviceName list with
  | .error _ => { w with phase := .rejected }
  | .ok next => w.listed options list next

end Watcher

/-! ### The server -/

/-- What each revision commits: the managed slices after it, or a change of other
objects. -/
abbrev Commits : Type := Timeline (List Json)

/-- The response to a list request at a revision. -/
def listAt (commits : Commits) (r : ℕ) : SliceList := ⟨r, stateAt [] commits r⟩

/-- What the server sends on a stream. -/
inductive Sent where
  | changed (revision : ℕ)
  | bookmark (version : Option ℕ)
  | gone
  /-- Another status, or what is not a frame. -/
  | invalid (e : RegistryError)

/-- The frame as it is read, or what reading it throws. -/
def Sent.frame : Sent → Except Thrown WatchFrame
  | changed revision => .ok ⟨some revision, true⟩
  | bookmark version => .ok ⟨version, false⟩
  | gone => .error (.http 410)
  | invalid e => .error (.registry e)

/-- What the frames tell of the changes. -/
def frames : Frames Sent where
  carries
    | .changed revision => some revision
    | _ => none
  marks
    | .bookmark version => version
    | _ => none

/-- An open stream. -/
structure Stream where
  /-- The changes up to this revision have been sent. -/
  sent : ℕ
  /-- The frames that have not been read. -/
  inbox : List Sent
  /-- The server has closed the stream. -/
  closed : Bool

/-- The stream after the server has sent a frame. -/
def Stream.send (stream : Stream) (frame : Sent) : Stream :=
  { stream with inbox := stream.inbox ++ [frame] }

/-- The server and the watcher. -/
structure World (urls : UrlParser) where
  /-- The revision of the store. -/
  revision : ℕ
  stream : Option Stream
  /-- The response to the list request that the watcher waits for. -/
  reply : Option SliceList
  watcher : Watcher urls
  /-- The revision of the last list. Nothing depends on it. -/
  listed : ℕ

/-- The watcher goes on. The stream is closed unless the watcher still reads it. -/
def World.proceed (s : World urls) (w : Watcher urls) : World urls :=
  { s with
    stream := if w.phase = .reading then s.stream else none
    reply := none
    watcher := w }

/-! ### Steps -/

/-- What happens on an open stream without the watcher. -/
inductive Sends (commits : Commits) (revision : ℕ) : Stream → Stream → Prop where
  /-- The next change is sent. -/
  | changed {stream : Stream} {r : ℕ} (hnext : Unchanged commits stream.sent (r - 1))
      (hsent : stream.sent < r) (hchange : commits r ≠ none) (hrevision : r ≤ revision) :
      Sends commits revision stream ({ stream with sent := r }.send (.changed r))
  /-- A bookmark is sent after all changes up to its version. -/
  | bookmark {stream : Stream} {version : Option ℕ}
      (hsent : ∀ r, version = some r → r ≤ revision ∧ Unchanged commits stream.sent r) :
      Sends commits revision stream (stream.send (.bookmark version))
  | gone {stream : Stream} : Sends commits revision stream (stream.send .gone)
  | invalid {stream : Stream} (e : RegistryError) :
      Sends commits revision stream (stream.send (.invalid e))
  | closed {stream : Stream} : Sends commits revision stream { stream with closed := true }

/-- A step of the server or of the watcher. -/
inductive Step (commits : Commits) : World urls → World urls → Prop where
  /-- The store commits its next revision. -/
  | commit {s : World urls} : Step commits s { s with revision := s.revision + 1 }
  /-- The server accepts the watch of the admission. -/
  | admitted {s : World urls} (hphase : s.watcher.phase = .admitting) (terminal : Bool) :
      Step commits s
        (World.proceed { s with stream := some ⟨s.watcher.revision, [], false⟩ }
          (s.watcher.completeAdmission terminal))
  | admissionFailed {s : World urls} (hphase : s.watcher.phase = .admitting) (value : Thrown) :
      Step commits s (s.proceed (s.watcher.admissionFailed value))
  /-- The server accepts a watch of the pump. -/
  | opened {s : World urls} (hphase : s.watcher.phase = .opening) :
      Step commits s
        (World.proceed { s with stream := some ⟨s.watcher.revision, [], false⟩ }
          { s.watcher with phase := .reading })
  | openFailed {s : World urls} (hphase : s.watcher.phase = .opening) (value : Thrown) :
      Step commits s (s.proceed (s.watcher.caught value))
  | sends {s : World urls} {stream stream' : Stream} (hstream : s.stream = some stream)
      (hopen : stream.closed = false) (hsends : Sends commits s.revision stream stream') :
      Step commits s { s with stream := some stream' }
  | frameRead {s : World urls} {stream : Stream} {sent : Sent} {rest : List Sent}
      {frame : WatchFrame} (hphase : s.watcher.phase = .reading) (hstream : s.stream = some stream)
      (hinbox : stream.inbox = sent :: rest) (hframe : sent.frame = .ok frame) :
      Step commits s
        (World.proceed { s with stream := some { stream with inbox := rest } }
          (s.watcher.frameRead options frame))
  /-- What is read is not a frame, or reports a failure. -/
  | frameFailed {s : World urls} {stream : Stream} {sent : Sent} {rest : List Sent}
      {value : Thrown} (hphase : s.watcher.phase = .reading) (hstream : s.stream = some stream)
      (hinbox : stream.inbox = sent :: rest) (hframe : sent.frame = .error value) :
      Step commits s (s.proceed (s.watcher.caught value))
  | streamEnded {s : World urls} {stream : Stream} (hphase : s.watcher.phase = .reading)
      (hstream : s.stream = some stream) (hinbox : stream.inbox = [])
      (hclosed : stream.closed = true) :
      Step commits s (s.proceed (s.watcher.streamEnded options))
  | streamBroke {s : World urls} (hphase : s.watcher.phase = .reading) (value : Thrown) :
      Step commits s (s.proceed (s.watcher.caught value))
  /-- The server answers a list request. -/
  | listed {s : World urls} (hphase : s.watcher.phase.listing = true) :
      Step commits s { s with reply := some (listAt commits s.revision) }
  | readmitted {s : World urls} {list : SliceList} (hphase : s.watcher.phase = .readmitting)
      (hreply : s.reply = some list) :
      Step commits s
        (World.proceed { s with listed := list.resourceVersion }
          (s.watcher.readmitted options list))
  | readmissionFailed {s : World urls} (hphase : s.watcher.phase = .readmitting) :
      Step commits s (s.proceed { s.watcher with phase := .refused })
  | relisted {s : World urls} {list : SliceList} (hphase : s.watcher.phase = .relisting)
      (hreply : s.reply = some list) :
      Step commits s
        (World.proceed { s with listed := list.resourceVersion } (s.watcher.relisted options list))
  | relistFailed {s : World urls} (hphase : s.watcher.phase = .relisting) (value : Thrown) :
      Step commits s (s.proceed (s.watcher.caught value))
  | recovered {s : World urls} {list : SliceList} (hphase : s.watcher.phase = .recovering)
      (hreply : s.reply = some list) :
      Step commits s
        (World.proceed { s with listed := list.resourceVersion }
          (s.watcher.recovered options list))
  /-- The list of the handler fails, and so does the pump. -/
  | recoveryFailed {s : World urls} (hphase : s.watcher.phase = .recovering) :
      Step commits s (s.proceed { s.watcher with phase := .rejected })
  | waited {s : World urls} (hphase : s.watcher.phase = .waiting) :
      Step commits s (s.proceed (s.watcher.waited options))
  /-- The pump notices that the watcher has ended. -/
  | aborted {s : World urls} (hphase : s.watcher.phase.admitted = true)
      (hfinal : s.watcher.phase.final = false) (haborted : s.watcher.outlet.aborted = true) :
      Step commits s (s.proceed { s.watcher with phase := .ended })
  | call {s : World urls} (hphase : s.watcher.phase.admitted = true) (call : Outlet.Call) :
      Step commits s
        { s with watcher := { s.watcher with outlet := s.watcher.outlet.perform call } }

/-- A watcher that has read its initial list. -/
inductive Starts (commits : Commits) : World urls → Prop where
  | created (revision : ℕ) (initialInstances : Snapshot urls)
      (hinitial : serviceInstances options.decodeManagedSlice options.serviceName
        (listAt commits revision) = .ok initialInstances) :
      Starts commits
        ⟨revision, none, none,
          replacementWatcher options (listAt commits revision) initialInstances, revision⟩

end Registry.Kubernetes
