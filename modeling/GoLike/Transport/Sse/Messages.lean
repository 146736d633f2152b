import GoLike.Lib.Utf8Lossy
import GoLike.Transport.Sse.LineParser

/-!
# Messages of an event stream

A message is the fields before an empty line, and a comment is a line that begins with a colon.
Events and comments are encoded with line feeds.
-/

namespace Transport.Sse

/-! ### The encoder -/

/-- The string contains a carriage return or a line feed. -/
def hasLineBreak (s : JsString) : Bool := s.units.contains 13 || s.units.contains 10

/-- Encode a comment, with the empty line after it. -/
def encodeSSEComment (comment : JsString) : Except ParserError Bytes :=
  if hasLineBreak comment then .error (.typeError "SSE comment must not contain a line break")
  else .ok (JsString.ofString ":" ++ comment ++ JsString.ofString "\n\n").encodeUtf8

/-- The line of the name of an event. -/
def eventLine : Option JsString → JsString
  | none => .empty
  | some event => JsString.ofString "event: " ++ event ++ JsString.ofString "\n"

/-- Encode an event. -/
def encodeSSEEvent (data : JsString) (event : Option JsString) : Except ParserError Bytes :=
  if hasLineBreak data then .error (.typeError "SSE RPC event data must be one line")
  else if event.any (fun name => name.isEmpty || hasLineBreak name) then
    .error (.typeError "SSE event name must be a non-empty line-safe string")
  else
    .ok (eventLine event ++ JsString.ofString "data: " ++ data ++
      JsString.ofString "\n\n").encodeUtf8

/-! ### The message parser -/

/-- A message that has been parsed. -/
structure EventStreamMessage where
  id : JsString
  event : JsString
  data : JsString
  deriving DecidableEq, Repr

/-- The callbacks of a message parser. -/
inductive Callback where
  | onId (id : JsString)
  | onRetry (retry : ℕ)
  | onMessage (message : EventStreamMessage)
  deriving DecidableEq, Repr

/-- The variables of a message parser. -/
structure MessageParser where
  lastEventId : JsString
  event : JsString
  data : JsString
  dataBytes : ℕ
  hasData : Bool

/-- The message parser before the first line. -/
def newMessageParser : MessageParser := ⟨.empty, .empty, .empty, 0, false⟩

/-- The bytes before an index, which is counted from the end when it is negative. -/
def subarrayTo (line : Bytes) (stop : ℤ) : Bytes :=
  line.take (if stop < 0 then (line.length + stop).toNat else stop.toNat)

/-- A line has a colon after its field. -/
def hasColon (line : Bytes) (fieldLength : ℤ) : Prop :=
  0 ≤ fieldLength ∧ (line)[fieldLength.toNat]? = some colon

instance (line : Bytes) (fieldLength : ℤ) : Decidable (hasColon line fieldLength) :=
  inferInstanceAs (Decidable (_ ∧ _))

/-- The bytes of the value of a line: those after the colon, without one space. -/
def valueBytes (line : Bytes) (fieldLength : ℤ) : Bytes :=
  if hasColon line fieldLength then
    let rest := line.drop (fieldLength.toNat + 1)
    if rest.head? = some space then rest.tail else rest
  else []

/-- The string is one decimal digit, or several. -/
def isDigits (s : JsString) : Bool := !s.isEmpty && s.units.all JsString.isDigit

/-- The greatest reconnection time. -/
def maxRetry : ℕ := 2147483647

/-- Consume a field. -/
def parseField (maxBufferSize : Option ℕ) (s : MessageParser) (field : JsString) (bytes : Bytes) :
    MessageParser × Except ParserError (Option Callback) :=
  let value := JsString.decodeLossy bytes
  if field = JsString.ofString "data" then
    let dataBytes := s.dataBytes + (bytes.length + 1)
    if exceeds maxBufferSize dataBytes then ({ s with dataBytes := dataBytes }, .error .limit)
    else
      ({ s with
          dataBytes := dataBytes
          hasData := true
          data := s.data ++ (value ++ JsString.ofString "\n") }, .ok none)
  else if field = JsString.ofString "event" then ({ s with event := value }, .ok none)
  else if field = JsString.ofString "id" then
    if value.units.contains 0 then (s, .ok none)
    else ({ s with lastEventId := value }, .ok (some (.onId value)))
  else if field = JsString.ofString "retry" ∧ isDigits value = true then
    (s, .ok (some (.onRetry (min value.decimalValue maxRetry))))
  else (s, .ok none)

/-- Consume a line. -/
def parseMessage (maxBufferSize : Option ℕ) (s : MessageParser) (parsed : Line) :
    MessageParser × Except ParserError (Option Callback) :=
  let (line, fieldLength) := parsed
  if line.length = 0 then
    ({ s with
        event := .empty
        data := .empty
        dataBytes := 0
        hasData := false },
      .ok (if s.hasData then
        some (.onMessage ⟨s.lastEventId, s.event, ⟨s.data.units.dropLast⟩⟩) else none))
  else
    parseField maxBufferSize s (JsString.decodeLossy (subarrayTo line fieldLength))
      (valueBytes line fieldLength)

/-- Consume lines, until one is refused. -/
def parseMessages (maxBufferSize : Option ℕ) (s : MessageParser) :
    List Line → List Callback × Except ParserError MessageParser
  | [] => ([], .ok s)
  | line :: lines =>
      match parseMessage maxBufferSize s line with
      | (_, .error e) => ([], .error e)
      | (s', .ok callback) =>
          let rest := parseMessages maxBufferSize s' lines
          (callback.toList ++ rest.1, rest.2)

/-- The callbacks of a new message parser that a new line parser feeds, and what is thrown. -/
def parseStream (maxLineSize maxMessageSize : Option JsNumber) (chunks : List Bytes) :
    List Callback × Except ParserError Unit :=
  match validateMaxBufferSize maxMessageSize with
  | .error e => ([], .error e)
  | .ok size =>
      let lines := createLineParser maxLineSize chunks
      let parsed := parseMessages size newMessageParser lines.1
      (parsed.1, parsed.2.bind (fun _ => lines.2))

end Transport.Sse
