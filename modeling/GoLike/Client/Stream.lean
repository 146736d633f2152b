import GoLike.Transport.Sse.Messages

/-!
# The client of a server stream

The client cuts the body of a response into frames, which end with two line feeds or with two
carriage returns that are each followed by a line feed, and parses each frame on its own. The
bytes that have been received are a view into a buffer with spare room for later chunks.
-/

open Transport.Sse

namespace Client

/-! ### Bytes that have been received -/

/-- A view into a buffer. -/
structure View where
  buffer : Bytes
  byteOffset : ℕ
  byteLength : ℕ
  within : byteOffset + byteLength ≤ buffer.length

namespace View

/-- The bytes of a view. -/
def bytes (v : View) : Bytes := (v.buffer.drop v.byteOffset).take v.byteLength

/-- The bytes of a view from an index on. -/
def subarray (v : View) (start : ℕ) : View where
  buffer := v.buffer
  byteOffset := v.byteOffset + min start v.byteLength
  byteLength := v.byteLength - start
  within := by
    have := v.within
    omega

@[simp]
theorem length_bytes (v : View) :
  v.bytes.length = v.byteLength
  := by
  have := v.within
  rw [bytes, List.length_take, List.length_drop]
  omega

@[simp]
theorem bytes_subarray (v : View) (start : ℕ) :
  (v.subarray start).bytes = v.bytes.drop start
  := by
  simp only [bytes, subarray, List.drop_take, List.drop_drop]
  by_cases hstart : start ≤ v.byteLength
  · rw [min_eq_left hstart]
  · have hzero : v.byteLength - start = 0 := by omega
    rw [hzero, List.take_zero, List.take_zero]

end View

/-- Write bytes into a buffer. -/
def setBytes (buffer : Bytes) (offset : ℕ) (source : Bytes) : Bytes :=
  buffer.take offset ++ (source ++ buffer.drop (offset + source.length))

theorem length_setBytes {buffer : Bytes} {offset : ℕ} {source : Bytes}
    (h : offset + source.length ≤ buffer.length) :
  (setBytes buffer offset source).length = buffer.length
  := by
  simp only [setBytes, List.length_append, List.length_take, List.length_drop]
  omega

/-- Received bytes that have not been consumed as frames. -/
structure PendingBytes where
  bytes : View
  /-- No boundary starts before this offset. -/
  scanned : ℕ

/-- Copy a chunk behind the pending bytes, into the spare room if there is enough. -/
def appendBytes (pending : PendingBytes) (chunk : Bytes) : PendingBytes :=
  let v := pending.bytes
  let size := v.byteLength + chunk.length
  if h : v.byteOffset + size ≤ v.buffer.length ∧ v.byteOffset ≤ size then
    { pending with
      bytes :=
        { buffer := setBytes v.buffer (v.byteOffset + v.byteLength) chunk
          byteOffset := v.byteOffset
          byteLength := size
          within := by
            rw [length_setBytes (by omega)]
            exact h.1 } }
  else
    { pending with
      bytes :=
        { buffer :=
            setBytes (setBytes (List.replicate (size * 2) 0) 0 v.bytes) v.byteLength chunk
          byteOffset := 0
          byteLength := size
          within := by
            have hbytes : (setBytes (List.replicate (size * 2) 0) 0 v.bytes).length = size * 2 := by
              rw [length_setBytes, List.length_replicate]
              rw [View.length_bytes, List.length_replicate]
              omega
            rw [length_setBytes, hbytes]
            · omega
            · rw [hbytes]
              omega } }

/-! ### Frames -/

/-- The length of the boundary with which the bytes begin. -/
def boundaryAt (bytes : Bytes) : Option ℕ :=
  if [newline, newline].isPrefixOf bytes then some 2
  else if [carriageReturn, newline, carriageReturn, newline].isPrefixOf bytes then some 4
  else none

/-- The index after the first boundary of the bytes, which start at an index. -/
def searchBoundary : Bytes → ℕ → Option ℕ
  | [], _ => none
  | b :: rest, index =>
      match boundaryAt (b :: rest) with
      | some length => some (index + length)
      | none => searchBoundary rest (index + 1)

/-- The index after the next boundary that starts at an index or after it. -/
def eventBoundary (bytes : Bytes) (start : ℕ) : Option ℕ := searchBoundary (bytes.drop start) start

/-- Remove the next frame from the pending bytes. -/
def takeFrame (pending : PendingBytes) : Option Bytes × PendingBytes :=
  match eventBoundary pending.bytes.bytes pending.scanned with
  | none => (none, { pending with scanned := pending.bytes.byteLength - 3 })
  | some boundary =>
      (some (pending.bytes.bytes.take boundary), ⟨pending.bytes.subarray boundary, 0⟩)

/-- The message of a callback. -/
def messageOf : Callback → Option EventStreamMessage
  | .onMessage message => some message
  | _ => none

/-- The messages that new parsers report for bytes. -/
def messagesOf (bytes : Bytes) : List EventStreamMessage :=
  (parseStream none none [bytes]).1.filterMap messageOf

/-- The message of a frame: the last one that its parser reports. -/
def parseFrame (frame : Bytes) : Option EventStreamMessage := (messagesOf frame).getLast?

theorem le_searchBoundary {bytes : Bytes} {index boundary : ℕ}
    (h : searchBoundary bytes index = some boundary) :
  index < boundary ∧ boundary ≤ index + bytes.length
  := by
  induction bytes generalizing index with
  | nil => cases h
  | cons b rest ih =>
      rw [searchBoundary] at h
      split at h
      · rename_i length hlength
        cases h
        rw [boundaryAt] at hlength
        split at hlength
        · rename_i hbelow
          cases hlength
          have hle := (List.isPrefixOf_iff_prefix.mp hbelow).length_le
          simp only [List.length_cons, List.length_nil] at hle ⊢
          omega
        · split at hlength
          · rename_i hbelow
            cases hlength
            have hle := (List.isPrefixOf_iff_prefix.mp hbelow).length_le
            simp only [List.length_cons, List.length_nil] at hle ⊢
            omega
          · cases hlength
      · have hih := ih h
        rw [List.length_cons]
        omega

/-! ### The iteration -/

/-- How the iteration of a stream ends. -/
inductive Ending where
  /-- An end event. -/
  | ended
  /-- An error event with its data. -/
  | failed (data : JsString)
  /-- A message that does not match the response struct. -/
  | mismatched
  /-- A frame, or the bytes of one that has begun, of a length above the limit. -/
  | tooLarge (actual : ℕ)
  /-- The body ended before a terminal event. -/
  | unterminated
  deriving DecidableEq

variable {α : Type}

/-- How far the iteration of a stream has got. -/
structure Progress (α : Type) where
  /-- The number of messages that the parsers have reported. Nothing depends on it. -/
  reported : ℕ
  /-- The messages that were processed, each with the number reported before it. Nothing
  depends on them. -/
  processed : List (EventStreamMessage × ℕ)
  /-- The values that were yielded. -/
  yielded : List α
  ending : Option Ending

/-- A message ends the stream, or its data is yielded when it has no name. -/
def Progress.message (decode : JsString → Option α) (p : Progress α)
    (message : EventStreamMessage) : Progress α :=
  if message.event = JsString.ofString "end" then { p with ending := some .ended }
  else if message.event = JsString.ofString "error" then
    { p with ending := some (.failed message.data) }
  else if message.event = .empty then
    match decode message.data with
    | some value => { p with yielded := p.yielded ++ [value] }
    | none => { p with ending := some .mismatched }
  else p

/-- Process a frame. -/
def Progress.frame (decode : JsString → Option α) (maxEventBytes : ℕ) (p : Progress α)
    (frame : Bytes) : Progress α :=
  if maxEventBytes < frame.length then { p with ending := some (.tooLarge frame.length) }
  else
    let reported := p.reported + (messagesOf frame).length
    match parseFrame frame with
    | none => { p with reported := reported }
    | some message =>
        { p with
          reported := reported
          processed := p.processed ++ [(message, reported - 1)] }.message decode message

theorem byteLength_takeFrame {pending : PendingBytes} {frame : Bytes}
    (h : (takeFrame pending).1 = some frame) :
  (takeFrame pending).2.bytes.byteLength < pending.bytes.byteLength
  := by
  rw [takeFrame] at h ⊢
  split at h
  · cases h
  · rename_i boundary hboundary
    have hle := le_searchBoundary hboundary
    rw [List.length_drop, View.length_bytes] at hle
    simp only [View.subarray]
    omega

/-- Process the frames of the pending bytes. -/
def takeFrames (decode : JsString → Option α) (maxEventBytes : ℕ) (p : Progress α)
    (pending : PendingBytes) : Progress α × PendingBytes :=
  match _h : (takeFrame pending).1 with
  | none => (p, (takeFrame pending).2)
  | some frame =>
      let next := p.frame decode maxEventBytes frame
      if next.ending.isSome then (next, (takeFrame pending).2)
      else takeFrames decode maxEventBytes next (takeFrame pending).2
termination_by pending.bytes.byteLength
decreasing_by exact byteLength_takeFrame _h

/-- The bytes of a frame that has begun must not be too many. -/
def checkUnfinished (maxEventBytes : ℕ) (p : Progress α) (pending : PendingBytes) : Progress α :=
  if p.ending.isSome then p
  else if maxEventBytes < pending.bytes.byteLength then
    { p with ending := some (.tooLarge pending.bytes.byteLength) }
  else p

/-- Process the chunks of a body, up to its end. -/
def iterateFrom (decode : JsString → Option α) (maxEventBytes : ℕ) (p : Progress α)
    (pending : PendingBytes) : List Bytes → Progress α
  | [] =>
      let taken := takeFrames decode maxEventBytes p pending
      let next := checkUnfinished maxEventBytes taken.1 taken.2
      if next.ending.isSome then next else { next with ending := some .unterminated }
  | chunk :: chunks =>
      let taken := takeFrames decode maxEventBytes p (appendBytes pending chunk)
      let next := checkUnfinished maxEventBytes taken.1 taken.2
      if next.ending.isSome then next
      else iterateFrom decode maxEventBytes next taken.2 chunks

/-- No bytes have been received. -/
def noBytes : PendingBytes := ⟨⟨[], 0, 0, le_rfl⟩, 0⟩

def noProgress : Progress α := ⟨0, [], [], none⟩

/-- The iteration of a stream whose body arrives in chunks. -/
def iterate (decode : JsString → Option α) (maxEventBytes : ℕ) (chunks : List Bytes) :
    Progress α :=
  iterateFrom decode maxEventBytes noProgress noBytes chunks

end Client
