import GoLike.Registry.Etcd.Watch
import GoLike.Registry.Kubernetes.Watch
import GoLike.Registry.WatchReader

/-!
# The frames of the etcd and of the Kubernetes watch

Both providers read frames line by line. The etcd reader drops a byte order mark at the beginning
of a line and keeps the first frame of a stream to be read again; the Kubernetes reader trims
white space. The parser of JSON texts is a parameter.
-/

open Store JsString

namespace Registry

/-- The properties of an object. -/
def objectOf (value : Option Json) (message : String) :
    Except RegistryError (List (JsString × Json)) :=
  match value with
  | some (.object properties) => .ok properties
  | _ => .error (.protocol message)

/-! ### etcd -/

namespace Etcd

/-- An optional integer, written as a string of decimal digits. -/
def integer (value : Option Json) (field : String) : Except RegistryError ℕ :=
  let message := "etcd watch " ++ field ++ " must be a decimal int64 string"
  match value with
  | none => .ok 0
  | some (.string s) =>
      if s.units ≠ [] ∧ s.units.all isDigit then .ok s.decimalValue
      else .error (.protocol message)
  | some _ => .error (.protocol message)

/-- The revision of the header of a frame. -/
def headerRevision (result : List (JsString × Json)) : Except RegistryError ℕ :=
  match Json.property result (name "header") with
  | none => .ok 0
  | some value => do
      let header ← objectOf (some value) "etcd watch frame header is invalid"
      integer (Json.property header (name "revision")) "header revision"

/-- The frame has events. -/
def hasEvents (result : List (JsString × Json)) : Except RegistryError Bool :=
  match Json.property result (name "events") with
  | none => .ok false
  | some (.array events) => .ok (!events.isEmpty)
  | some _ => .error (.protocol "etcd watch events must be an array")

/-- Parse one frame. -/
def parseFrame (json : JsString → Option Json) (text : List Char) :
    Except RegistryError WatchFrame :=
  match json (ofChars text) with
  | none => .error (.protocol "etcd watch frame is not valid JSON")
  | some decoded => do
      let envelope ← objectOf (some decoded) "etcd watch frame envelope is invalid"
      let result ← objectOf (Json.property envelope (name "result"))
        "etcd watch frame omitted its result"
      let revision ← headerRevision result
      let compactRevision ←
        integer (Json.property result (name "compact_revision")) "compact revision"
      let events ← hasEvents result
      .ok
        { revision := revision
          created := Json.property result (name "created") = some (.bool true)
          canceled := Json.property result (name "canceled") = some (.bool true)
          compactRevision := compactRevision
          events := events }

/-- The frames of etcd: a byte order mark at the beginning of a line is dropped. -/
def frameFormat (json : JsString → Option Json) : FrameFormat RegistryError WatchFrame where
  strip := stripMark
  strip_nil := rfl
  parseFrame := parseFrame json

/-- Read one frame; those that are pending come first. -/
def readFrame (json : JsString → Option Json) :
    List WatchFrame × WatchStream →
      Except (StreamEnd RegistryError) WatchFrame × List WatchFrame × WatchStream
  | (frame :: pending, s) => (.ok frame, pending, s)
  | ([], s) =>
      let read := s.readFrame (frameFormat json)
      (read.1, [], read.2)

end Etcd

/-! ### Kubernetes -/

namespace Kubernetes

/-- A frame. -/
structure LineFrame where
  resourceVersion : Option JsString
  changed : Bool

/-- The version in the metadata of an object. -/
def metadataVersion (carrier : List (JsString × Json)) : Except RegistryError (Option JsString) :=
  match Json.property carrier (name "metadata") with
  | none => .ok none
  | some value => do
      let metadata ← objectOf (some value) "Kubernetes watch object metadata is invalid"
      match Json.property metadata (name "resourceVersion") with
      | none => .ok none
      | some (.string version) =>
          if version.isEmpty then
            .error (.protocol "Kubernetes watch resourceVersion is invalid")
          else .ok (some version)
      | some _ => .error (.protocol "Kubernetes watch resourceVersion is invalid")

/-- The version of an optional object. -/
def objectResourceVersion (value : Option Json) : Except RegistryError (Option JsString) :=
  match value with
  | none => .ok none
  | some value => do
      let carrier ← objectOf (some value) "Kubernetes watch object is invalid"
      metadataVersion carrier

/-- A frame with the version of its object. -/
def versionFrame (payload : Option Json) (changed : Bool) : Except Thrown LineFrame :=
  match objectResourceVersion payload with
  | .ok version => .ok ⟨version, changed⟩
  | .error e => .error (.registry e)

/-- What an error frame throws. -/
def errorFrame (payload : Option Json) : Thrown :=
  match objectOf payload "Kubernetes watch error Status is invalid" with
  | .error e => .registry e
  | .ok status =>
      if Json.property status (name "code") = some (.number (.ofNat 410)) then .http 410
      else .registry (.protocol "Kubernetes watch returned an error Status")

/-- The frame of an envelope. -/
def envelopeFrame (envelope : List (JsString × Json)) : Except Thrown LineFrame :=
  let type := Json.property envelope (name "type")
  let payload := Json.property envelope (name "object")
  if type = some (.string (name "ERROR")) then .error (errorFrame payload)
  else if type = some (.string (name "BOOKMARK")) then versionFrame payload false
  else if type = some (.string (name "ADDED")) ∨ type = some (.string (name "MODIFIED")) ∨
      type = some (.string (name "DELETED")) then
    versionFrame payload true
  else .error (.registry (.protocol "Kubernetes watch frame has an unsupported event type"))

/-- Parse one frame. -/
def parseFrame (json : JsString → Option Json) (text : List Char) : Except Thrown LineFrame :=
  match json (ofChars text) with
  | none => .error (.registry (.protocol "Kubernetes watch frame is not valid JSON"))
  | some decoded =>
      match objectOf (some decoded) "Kubernetes watch frame is invalid" with
      | .error e => .error (.registry e)
      | .ok envelope => envelopeFrame envelope

/-- The frames of Kubernetes: a line is trimmed. -/
def frameFormat (json : JsString → Option Json) : FrameFormat Thrown LineFrame where
  strip := trim
  strip_nil := rfl
  parseFrame := parseFrame json

/-- Read one frame. -/
def readFrame (json : JsString → Option Json) (s : WatchStream) :
    Except (StreamEnd Thrown) LineFrame × WatchStream :=
  s.readFrame (frameFormat json)

end Kubernetes

/-! ### Chunks -/

open WatchStream

/-- Pending frames are read before those of the stream. -/
theorem Etcd.reads_pending {json : JsString → Option Json} {s : WatchStream}
    {r : List WatchFrame × StreamEnd RegistryError}
    (h : Reads (WatchStream.readFrame (frameFormat json)) s r) (pending : List WatchFrame) :
  Reads (readFrame json) (pending, s) (pending ++ r.1, r.2)
  := by
  induction pending with
  | nil =>
      induction h with
      | frame hread _ ih =>
          apply Reads.frame _ ih
          rw [readFrame, hread]
      | @finish s s' e hread =>
          have hfinish : readFrame json ([], s) = (.error e, ([], s')) := by
            rw [readFrame, hread]
          exact .finish hfinish
  | cons frame pending ih => exact .frame rfl ih

/-- What is read of a body, by either reader, are the frames of its text, however the body is
cut; and the counter is right in every state. -/
theorem watchFrames_chunked (json : JsString → Option Json) :
  (∀ text chunks pending, chunks.flatten = utf8 text →
    (∀ r, Reads (Etcd.readFrame json) (pending, WatchStream.start chunks) r ↔
      Reads (Etcd.readFrame json) (pending, WatchStream.start [utf8 text]) r) ∧
    Reads (Etcd.readFrame json) (pending, WatchStream.start chunks)
      (pending ++ (frames (Etcd.frameFormat json) text).1,
        (frames (Etcd.frameFormat json) text).2) ∧
    ∀ s, Reaches (Etcd.frameFormat json) (WatchStream.start chunks) s → s.Counts (utf8 text)) ∧
  (∀ text chunks, chunks.flatten = utf8 text →
    (∀ r, Reads (Kubernetes.readFrame json) (WatchStream.start chunks) r ↔
      Reads (Kubernetes.readFrame json) (WatchStream.start [utf8 text]) r) ∧
    Reads (Kubernetes.readFrame json) (WatchStream.start chunks)
      (frames (Kubernetes.frameFormat json) text) ∧
    ∀ s, Reaches (Kubernetes.frameFormat json) (WatchStream.start chunks) s →
      s.Counts (utf8 text))
  := by
  have huncut : ∀ text : List Char, [utf8 text].flatten = utf8 text := fun text =>
    List.flatten_singleton
  have hiff : ∀ {σ ε φ : Type} {read : σ → Except ε φ × σ} {s s' : σ} {r₀ : List φ × ε},
      Reads read s r₀ → Reads read s' r₀ → ∀ r, Reads read s r ↔ Reads read s' r := by
    intro σ ε φ read s s' r₀ h h' r
    constructor
    · intro hr
      rw [hr.unique h]
      exact h'
    · intro hr
      rw [hr.unique h']
      exact h
  constructor
  · intro text chunks pending hbody
    have hreads : ∀ {chunks : List (List UInt8)}, chunks.flatten = utf8 text →
        Reads (Etcd.readFrame json) (pending, WatchStream.start chunks)
          (pending ++ (frames (Etcd.frameFormat json) text).1,
            (frames (Etcd.frameFormat json) text).2) := by
      intro chunks hbody
      exact Etcd.reads_pending (reads_frames _ (holds_start hbody)) pending
    refine ⟨hiff (hreads hbody) (hreads (huncut text)), hreads hbody, ?_⟩
    intro s hs
    exact hs.counts hbody
  · intro text chunks hbody
    have hreads : ∀ {chunks : List (List UInt8)}, chunks.flatten = utf8 text →
        Reads (Kubernetes.readFrame json) (WatchStream.start chunks)
          (frames (Kubernetes.frameFormat json) text) := by
      intro chunks hbody
      exact reads_frames _ (holds_start hbody)
    refine ⟨hiff (hreads hbody) (hreads (huncut text)), hreads hbody, ?_⟩
    intro s hs
    exact hs.counts hbody

end Registry
