import GoLike.Lib.JsNumber

/-!
# The line parser of an event stream

Chunks of bytes are split into lines, which end with a line feed, a carriage return, or both.
A line is reported with the length of its field: the position of its first colon, the whole
line without one, and `-1` for an empty line. What is left of a chunk is kept in a buffer.
-/

namespace Transport.Sse

abbrev Bytes : Type := List UInt8

def newline : UInt8 := 10

def carriageReturn : UInt8 := 13

def space : UInt8 := 32

def colon : UInt8 := 58

/-- What the parsers throw. -/
inductive ParserError where
  /-- SSE parser buffer exceeded maxBufferSize. -/
  | limit
  | typeError (message : String)
  deriving DecidableEq, Repr

/-- A line without its ending, and the length of its field. -/
abbrev Line : Type := Bytes × ℤ

/-- A missing ceiling, or a positive safe integer. -/
def validateMaxBufferSize (maxBufferSize : Option JsNumber) :
    Except ParserError (Option ℕ) :=
  match maxBufferSize with
  | none => .ok none
  | some value =>
      match value.toSafeNat? with
      | none => .error (.typeError "SSE maxBufferSize must be a positive safe integer")
      | some n =>
          if n < 1 then .error (.typeError "SSE maxBufferSize must be a positive safe integer")
          else .ok (some n)

/-- The length is above the ceiling. -/
def exceeds (maxBufferSize : Option ℕ) (length : ℕ) : Bool := maxBufferSize.any (· < length)

/-! ### The loops -/

/-- The variables of a line parser between chunks. -/
structure LineParser where
  buffer : Option Bytes
  position : ℕ
  fieldLength : ℤ
  discardTrailingNewline : Bool

/-- The line parser before the first chunk. -/
def newLineParser : LineParser := ⟨none, 0, -1, false⟩

/-- The variables of the loop over the lines of a buffer. -/
structure Cursor where
  lineStart : ℕ
  position : ℕ
  fieldLength : ℤ
  discardTrailingNewline : Bool

/-- Where the search for the end of a line has got to. -/
structure Scan where
  lineEnd : Option ℕ
  position : ℕ
  fieldLength : ℤ
  /-- The line ends with a carriage return. -/
  discardTrailingNewline : Bool

/-- Search for the end of a line, and for its first colon. -/
def scanLine (lineStart : ℕ) : Bytes → ℕ → ℤ → Scan
  | [], position, fieldLength => ⟨none, position, fieldLength, false⟩
  | current :: rest, position, fieldLength =>
      if current = colon then
        scanLine lineStart rest (position + 1)
          (if fieldLength = -1 then position - lineStart else fieldLength)
      else if current = carriageReturn then ⟨some position, position + 1, fieldLength, true⟩
      else if current = newline then ⟨some position, position + 1, fieldLength, false⟩
      else scanLine lineStart rest (position + 1) fieldLength

theorem position_scanLine {lineStart : ℕ} {rest : Bytes} {position : ℕ} {fieldLength : ℤ}
    (h : (scanLine lineStart rest position fieldLength).lineEnd ≠ none) :
  position < (scanLine lineStart rest position fieldLength).position
  := by
  induction rest generalizing position fieldLength with
  | nil => exact absurd rfl h
  | cons current rest ih =>
      rw [scanLine] at h ⊢
      split
      · rename_i hcolon
        rw [if_pos hcolon] at h
        exact (Nat.lt_succ_self position).trans (ih h)
      · rename_i hcolon
        rw [if_neg hcolon] at h
        split
        · exact Nat.lt_succ_self position
        · rename_i hreturn
          rw [if_neg hreturn] at h
          split
          · exact Nat.lt_succ_self position
          · rename_i hnewline
            rw [if_neg hnewline] at h
            exact (Nat.lt_succ_self position).trans (ih h)

/-- A line feed after a carriage return belongs to the line before. -/
def discardNewline (buffer : Bytes) (c : Cursor) : Cursor :=
  if c.discardTrailingNewline then
    if buffer[c.position]? = some newline then
      { c with
        lineStart := c.position + 1
        position := c.position + 1
        discardTrailingNewline := false }
    else { c with discardTrailingNewline := false }
  else c

/-- Report the lines of a buffer. -/
def parseLines (maxBufferSize : Option ℕ) (buffer : Bytes) (c : Cursor) :
    List Line × Except ParserError Cursor :=
  if c.position < buffer.length then
    let d := discardNewline buffer c
    let scan := scanLine d.lineStart (buffer.drop d.position) d.position d.fieldLength
    match h : scan.lineEnd with
    | none => ([], .ok { d with position := scan.position, fieldLength := scan.fieldLength })
    | some lineEnd =>
        if exceeds maxBufferSize (lineEnd - d.lineStart) then ([], .error .limit)
        else
          let currentFieldLength : ℤ :=
            if scan.fieldLength = -1 ∧ d.lineStart < lineEnd then lineEnd - d.lineStart
            else scan.fieldLength
          let rest := parseLines maxBufferSize buffer
            ⟨scan.position, scan.position, -1, scan.discardTrailingNewline⟩
          ((buffer.extract d.lineStart lineEnd, currentFieldLength) :: rest.1, rest.2)
  else ([], .ok c)
termination_by buffer.length - c.position
decreasing_by
  have hsome : scan.lineEnd ≠ none := by
    rw [h]
    rintro ⟨⟩
  have hposition : d.position < scan.position := position_scanLine hsome
  have hle : c.position ≤ d.position := by
    simp only [d, discardNewline]
    split
    · split
      · exact Nat.le_succ _
      · exact le_rfl
    · exact le_rfl
  have hless : buffer.length - scan.position < buffer.length - c.position := by omega
  exact hless

/-- What is left of a buffer is kept. -/
def keepRest (maxBufferSize : Option ℕ) (buffer : Bytes) (c : Cursor) :
    Except ParserError LineParser :=
  if c.lineStart = buffer.length then
    .ok ⟨none, c.position, c.fieldLength, c.discardTrailingNewline⟩
  else
    let rest := buffer.drop c.lineStart
    if exceeds maxBufferSize rest.length then .error .limit
    else .ok ⟨some rest, c.position - c.lineStart, c.fieldLength, c.discardTrailingNewline⟩

/-- Consume a chunk. -/
def parseLine (maxBufferSize : Option ℕ) (s : LineParser) (chunk : Bytes) :
    List Line × Except ParserError LineParser :=
  let parsed := match s.buffer with
    | some buffer =>
        (buffer ++ chunk, parseLines maxBufferSize (buffer ++ chunk)
          ⟨0, s.position, s.fieldLength, s.discardTrailingNewline⟩)
    | none =>
        (chunk, parseLines maxBufferSize chunk ⟨0, 0, -1, s.discardTrailingNewline⟩)
  (parsed.2.1, parsed.2.2.bind (keepRest maxBufferSize parsed.1))

/-- Consume chunks, until one is refused. -/
def parseChunks (maxBufferSize : Option ℕ) (s : LineParser) :
    List Bytes → List Line × Except ParserError LineParser
  | [] => ([], .ok s)
  | chunk :: chunks =>
      let parsed := parseLine maxBufferSize s chunk
      match parsed.2 with
      | .error e => (parsed.1, .error e)
      | .ok s' =>
          let rest := parseChunks maxBufferSize s' chunks
          (parsed.1 ++ rest.1, rest.2)

/-- The lines that a new parser reports for chunks, and what it throws. -/
def createLineParser (maxBufferSize : Option JsNumber) (chunks : List Bytes) :
    List Line × Except ParserError Unit :=
  match validateMaxBufferSize maxBufferSize with
  | .error e => ([], .error e)
  | .ok maxBufferSize =>
      let parsed := parseChunks maxBufferSize newLineParser chunks
      (parsed.1, parsed.2.map (fun _ => ()))

end Transport.Sse
