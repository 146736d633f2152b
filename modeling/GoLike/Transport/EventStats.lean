import GoLike.Lib.Utf8Replacing
import GoLike.Transport.ServiceError

/-!
# The statistics of an event stream

The observer of a response decodes the bytes of an event stream to a text, cuts the text into
blocks at two line feeds or at two pairs of a carriage return and a line feed, and reads each block
by itself: it counts the messages without a name, and keeps the first terminal event.
-/

open JsString

namespace Transport

/-! ### Texts -/

/-- The index of the first occurrence of a pattern. -/
def indexOf (pattern : List Char) : List Char → Option ℕ
  | [] => if pattern.isEmpty then some 0 else none
  | c :: cs =>
      if pattern.isPrefixOf (c :: cs) then some 0 else (indexOf pattern cs).map (· + 1)

/-- A block is cut into lines at line feeds, each with the carriage return before it. -/
def eventLines : List Char → List (List Char)
  | [] => [[]]
  | '\n' :: cs => [] :: eventLines cs
  | '\r' :: '\n' :: cs => [] :: eventLines cs
  | c :: cs => (eventLines cs).modifyHead (c :: ·)

/-- The field of a line: what is before its first colon. -/
def fieldOf (line : List Char) : List Char := line.takeWhile fun c => c ≠ ':'

/-- The value of a line: what is behind its first colon, without one space. -/
def valueOf (line : List Char) : List Char :=
  match line.dropWhile fun c => c ≠ ':' with
  | ':' :: ' ' :: value => value
  | ':' :: value => value
  | _ => []

/-! ### Blocks -/

/-- The terminal event of a stream. -/
inductive Terminal where
  | none
  | ended
  | error
  deriving DecidableEq

/-- The statistics of a stream. -/
structure EventStats where
  messageCount : ℕ
  terminal : Terminal
  errorCode : Option JsString
  errorStatus : Option JsNumber

/-- The event and the data of the lines of a block. -/
structure Block where
  event : List Char
  data : List (List Char)

/-- Read a line. -/
def Block.line (block : Block) (line : List Char) : Block :=
  if line.isEmpty || line.head? = some ':' then block
  else if fieldOf line = "event".toList then { block with event := valueOf line }
  else if fieldOf line = "data".toList then { block with data := block.data ++ [valueOf line] }
  else block

/-- Read the lines of a block. -/
def Block.read (block : List Char) : Block := (eventLines block).foldl Block.line ⟨[], []⟩

variable (numberValue : List UInt16 → JsNumber)

/-- The code and the status of an error event. -/
def eventError (data : JsString) : JsString × JsNumber :=
  match JsonReader.parse numberValue data with
  | some (.object properties) =>
      (match Json.property properties (ofString "code") with
        | some (.string code) => if code.isEmpty then ofString "internal" else code
        | _ => ofString "internal",
      match Json.property properties (ofString "status") with
        | some (.number status) =>
            if isServiceErrorStatus status then status else JsNumber.ofNat 500
        | _ => JsNumber.ofNat 500)
  | _ => (ofString "internal", JsNumber.ofNat 500)

/-- Update the statistics from a block. -/
def consumeEvent (block : List Char) (stats : EventStats) : EventStats :=
  if stats.terminal ≠ .none then stats
  else
    let read := Block.read block
    if read.data.isEmpty then stats
    else if read.event.isEmpty then { stats with messageCount := stats.messageCount + 1 }
    else if read.event = "end".toList then { stats with terminal := .ended }
    else if read.event = "error".toList then
      let error := eventError numberValue (ofChars (List.intercalate ['\n'] read.data))
      { stats with
        terminal := .error
        errorCode := some error.1
        errorStatus := some error.2 }
    else stats

/-! ### The stream -/

/-- The next boundary of a text, with its width. -/
def nextBoundary (pending : List Char) : Option (ℕ × ℕ) :=
  match indexOf ['\n', '\n'] pending, indexOf ['\r', '\n', '\r', '\n'] pending with
  | some lf, some crlf => if lf ≤ crlf then some (lf, 2) else some (crlf, 4)
  | some lf, none => some (lf, 2)
  | none, some crlf => some (crlf, 4)
  | none, none => none

theorem two_le_of_nextBoundary {pending : List Char} {boundary width : ℕ}
    (h : nextBoundary pending = some (boundary, width)) :
  2 ≤ width ∧ pending ≠ []
  := by
  constructor
  · unfold nextBoundary at h
    split at h
    · split at h <;> simp at h <;> omega
    · simp at h
      omega
    · simp at h
      omega
    · simp at h
  · rintro rfl
    simp [nextBoundary, indexOf] at h

/-- Consume every complete block. -/
def drain (stats : EventStats) (pending : List Char) : EventStats × List Char :=
  match _h : nextBoundary pending with
  | none => (stats, pending)
  | some (boundary, width) =>
      drain (consumeEvent numberValue (pending.take boundary) stats)
        (pending.drop (boundary + width))
termination_by pending.length
decreasing_by
  have := two_le_of_nextBoundary _h
  have := List.length_pos_iff.2 this.2
  rw [List.length_drop]
  omega

/-- The observer of a stream. -/
structure Observer where
  decoder : Utf8Decoder
  /-- Whether the decoder has yielded a character, so that it strips no mark. -/
  begun : Bool
  pending : List Char
  stats : EventStats

/-- The observer before the first chunk. -/
def createEventStats : Observer := ⟨.start, false, [], ⟨0, .none, none, none⟩⟩

/-- Append decoded characters, of which a mark at the beginning is stripped. -/
def Observer.receive (o : Observer) (decoder : Utf8Decoder) (cs : List Char) : Observer :=
  let text := if o.begun then cs else stripMark cs
  let drained := drain numberValue o.stats (o.pending ++ text)
  { decoder := decoder
    begun := o.begun || !cs.isEmpty
    pending := drained.2
    stats := drained.1 }

/-- Append one chunk. -/
def Observer.push (o : Observer) (chunk : List UInt8) : Observer :=
  let decoded := Utf8Decoder.runReplacing o.decoder chunk
  o.receive numberValue decoded.1 decoded.2

/-- Flush the decoder. -/
def Observer.finish (o : Observer) : Observer :=
  o.receive numberValue .start o.decoder.flush

/-- The statistics of a body that arrives in chunks. -/
def observe (chunks : List (List UInt8)) : EventStats :=
  ((chunks.foldl (Observer.push numberValue) createEventStats).finish numberValue).stats

end Transport
