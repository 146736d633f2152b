import GoLike.Config.Etcd.Protocol
import GoLike.Lib.JsSplit
import GoLike.Registry.WatchReader

/-!
# Reading the body of a watch

The body of a watch is decoded read by read. The text that is buffered after a read, whether it is
one frame or several, is compared with the limit of a frame; then its complete lines are taken one
after the other, until one of them decides. A body is read as if it were delivered line by line
exactly when no read comes to more than the limit before a line decides, unless a frame does so by
itself.
-/

open JsString
open Registry.WatchStream (newline splitLines splitLines_tail splitLines_line)

namespace Config.Etcd

def MaximumWatchFrameBytes : ℕ := 1048576

/-- The number of units of a text. -/
def unitLength (text : List Char) : ℕ := (ofChars text).units.length

/-! ### Decoding -/

/-- A decoder of a stream. -/
structure StreamDecoder where
  decoder : Utf8Decoder
  /-- A character has been decoded. -/
  begun : Bool

/-- The decoder of a stream of which nothing was received. -/
def StreamDecoder.start : StreamDecoder := ⟨.start, false⟩

/-- Decode bytes; a byte order mark at the beginning of the stream is dropped. -/
def StreamDecoder.decode (d : StreamDecoder) (bytes : List UInt8) :
    Option (StreamDecoder × List Char) :=
  (d.decoder.run bytes).map (fun decoded =>
    (⟨decoded.1, d.begun || !decoded.2.isEmpty⟩,
      if d.begun then decoded.2 else stripMark decoded.2))

/-! ### Reading -/

/-- How a body comes to its outcome. -/
inductive BodyEnd where
  | outcome (outcome : WatchOutcome)
  /-- The text that is buffered is longer than a frame may be. -/
  | limit
  /-- The bytes are not UTF-8. -/
  | invalidUtf8
  /-- A line is not a frame. -/
  | invalidFrame (e : Thrown)
  /-- The body is at its end. -/
  | ended

/-- What is returned or thrown. -/
def BodyEnd.result : BodyEnd → Except Thrown WatchOutcome
  | outcome o => .ok o
  | limit => .error (.protocol .watch)
  | invalidUtf8 => .error (.protocol .watch)
  | invalidFrame e => .error e
  | ended => .error (.transport .watch)

variable (json : JsString → Option Json)

/-- What a line decides, if it is a frame that does. -/
def lineEnd (line : List Char) : Option BodyEnd :=
  let text := trim line
  if text = [] then none
  else
    match parseWatchFrame ⟨true, json (ofChars text)⟩ with
    | .error e => some (.invalidFrame e)
    | .ok none => none
    | .ok (some outcome) => some (.outcome outcome)

/-- Read a body, with the text that is buffered, until a line decides. -/
def readBody (decoder : StreamDecoder) (buffered : List Char) : List (List UInt8) → BodyEnd
  | [] =>
      if decoder.decoder.needed ≠ 0 then .invalidUtf8
      else if unitLength buffered > MaximumWatchFrameBytes then .limit
      else
        match (splitLines buffered).1.findSome? (lineEnd json) with
        | some bodyEnd => bodyEnd
        | none => (lineEnd json (splitLines buffered).2).getD .ended
  | chunk :: chunks =>
      match decoder.decode chunk with
      | none => .invalidUtf8
      | some (decoder', text) =>
          if unitLength (buffered ++ text) > MaximumWatchFrameBytes then .limit
          else
            match (splitLines (buffered ++ text)).1.findSome? (lineEnd json) with
            | some bodyEnd => bodyEnd
            | none => readBody decoder' (splitLines (buffered ++ text)).2 chunks

/-- How the body that is received in chunks comes to its outcome. -/
def bodyEnd (chunks : List (List UInt8)) : BodyEnd := readBody json .start [] chunks

/-- The lines of a text with their newlines, and what follows the last newline. -/
def pieces (text : List Char) : List (List Char) :=
  (splitLines text).1.map (· ++ [newline]) ++ [(splitLines text).2]

theorem splitLines_append (text more : List Char) :
  splitLines (text ++ more) =
    ((splitLines text).1 ++ (splitLines ((splitLines text).2 ++ more)).1,
      (splitLines ((splitLines text).2 ++ more)).2)
  := by
  induction text with
  | nil => rfl
  | cons c text ih =>
      rw [List.cons_append, splitLines, splitLines]
      by_cases hc : c = newline
      · rw [if_pos hc, if_pos hc, ih]
        rfl
      · rw [if_neg hc, if_neg hc, ih]
        cases hlines : (splitLines text).1 with
        | nil =>
            dsimp only
            rw [List.nil_append, List.nil_append, List.cons_append, splitLines, if_neg hc]
        | cons line lines => rfl

variable {texts : List (List Char)}

variable {json}

variable {lines : List (List Char)}

variable {decoder d' : StreamDecoder} {chunks : List (List UInt8)}

variable {buffered text : List Char}

end Config.Etcd
