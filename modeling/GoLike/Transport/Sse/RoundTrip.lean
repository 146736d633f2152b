import GoLike.Transport.Sse.Lines
import GoLike.Transport.Sse.Messages

/-!
# Parsing what was encoded

The lines of encoded events and comments are known, and the message parser reads the events from
them, except that a byte order mark at the beginning of a value is lost.
-/

namespace Transport.Sse

/-- What is written to a stream. -/
inductive Frame where
  | comment (text : JsString)
  | event (data : JsString) (name : Option JsString)

/-- The bytes of a frame. -/
def Frame.encode : Frame → Except ParserError Bytes
  | .comment text => encodeSSEComment text
  | .event data name => encodeSSEEvent data name

/-- The bytes of frames, one after the other. -/
def encodeFrames : List Frame → Except ParserError Bytes
  | [] => .ok []
  | frame :: frames =>
      frame.encode.bind (fun bytes => (encodeFrames frames).map (fun others => bytes ++ others))

/-- The strings of the frame are well formed. -/
def Frame.isWellFormed : Frame → Prop
  | .comment text => text.isWellFormed = true
  | .event data name => data.isWellFormed = true ∧ ∀ n ∈ name, n.isWellFormed = true

/-- The message of a frame, which has no name when none was given. -/
def Frame.message : Frame → Option EventStreamMessage
  | .comment _ => none
  | .event data name => some ⟨.empty, name.getD .empty, data⟩

/-- The first character of the string is a byte order mark. -/
def beginsWithMark (s : JsString) : Prop := s.chars.head? = some JsString.byteOrderMark

/-- No value of the frame begins with a byte order mark. -/
def Frame.unmarked : Frame → Prop
  | .comment _ => True
  | .event data name => ¬ beginsWithMark data ∧ ∀ n ∈ name, ¬ beginsWithMark n

/-! ### The lines of a frame -/

/-- The bytes do not end a line. -/
def isOpen (bytes : Bytes) : Prop := ∀ b ∈ bytes, ¬ isEnd b

theorem linesOf_newline {line : Bytes} (h : isOpen line) (rest : Bytes) :
  linesOf none (.begun []) (line ++ newline :: rest) =
    (lineOf line :: (linesOf none (.begun []) rest).1, (linesOf none (.begun []) rest).2)
  := by
  rw [linesOf, splitLines_end [] line rest h (.inr rfl)]
  rfl

variable {s : JsString}

/-- A string without line breaks does not end a line. -/
theorem isOpen_encodeUtf8 (hs : s.isWellFormed = true) (h : hasLineBreak s = false) :
  isOpen s.encodeUtf8
  := by
  rw [hasLineBreak, Bool.or_eq_false_iff] at h
  intro b hb hend
  obtain rfl | rfl := hend
  · have hunit := JsString.mem_units_of_mem_encodeUtf8 hs (by decide) hb
    exact absurd (List.contains_iff_mem.mpr hunit) (Bool.eq_false_iff.mp h.1)
  · have hunit := JsString.mem_units_of_mem_encodeUtf8 hs (by decide) hb
    exact absurd (List.contains_iff_mem.mpr hunit) (Bool.eq_false_iff.mp h.2)

variable {bytes : Bytes}

theorem isOpen_of_all (h : bytes.all (fun b => !decide (isEnd b)) = true) :
  isOpen bytes
  := by
  intro b hb
  have hnot := List.all_eq_true.mp h b hb
  rw [Bool.not_eq_true', decide_eq_false_iff_not] at hnot
  exact hnot

theorem isOpen_append {more : Bytes} (h : isOpen bytes) (hmore : isOpen more) :
  isOpen (bytes ++ more)
  := by
  intro b hb
  obtain hb | hb := List.mem_append.mp hb
  · exact h b hb
  · exact hmore b hb

variable {field : Bytes}

/-- A line is reported with its field, when the field has no colon. -/
theorem lineOf_field (h : colon ∉ field) (rest : Bytes) :
  lineOf (field ++ colon :: rest) = (field ++ colon :: rest, (field.length : ℤ))
  := by
  have hindex : colonIndex (field ++ colon :: rest) = field.length := by
    rw [colonIndex_append, if_neg h, if_pos List.mem_cons_self, List.idxOf_cons_self,
      Nat.add_zero]
  have hnot : ¬ ((field.length : ℤ) = -1 ∧ field ++ colon :: rest ≠ []) := by
    rintro ⟨hnegative, _⟩
    omega
  rw [lineOf, hindex, if_neg hnot]

theorem hasColon_field (field rest : Bytes) :
  hasColon (field ++ colon :: rest) field.length
  := by
  constructor
  · exact Int.natCast_nonneg _
  · rw [Int.toNat_natCast, List.getElem?_append_right le_rfl, Nat.sub_self]
    rfl

theorem subarrayTo_field (field rest : Bytes) :
  subarrayTo (field ++ colon :: rest) field.length = field
  := by
  rw [subarrayTo, if_neg (by omega), Int.toNat_natCast, List.take_left]

/-- One space after the colon is left out. -/
theorem valueBytes_field (field value : Bytes) :
  valueBytes (field ++ colon :: space :: value) field.length = value
  := by
  have hdrop : (field ++ colon :: space :: value).drop (((field.length : ℕ) : ℤ).toNat + 1) =
      space :: value := by
    rw [Int.toNat_natCast, ← List.drop_drop, List.drop_left]
    rfl
  rw [valueBytes, if_pos (hasColon_field _ _), hdrop]
  rfl

/-- The bytes of the name of a data field. -/
def dataField : Bytes := [100, 97, 116, 97]

/-- The bytes of the name of an event field. -/
def eventField : Bytes := [101, 118, 101, 110, 116]

theorem decodeLossy_dataField : JsString.decodeLossy dataField = JsString.ofString "data"
  := by
  have hfield : dataField = (JsString.ofString "data").encodeUtf8 := by rfl
  rw [hfield, JsString.decodeLossy_encodeUtf8]
  rfl

theorem decodeLossy_eventField : JsString.decodeLossy eventField = JsString.ofString "event"
  := by
  have hfield : eventField = (JsString.ofString "event").encodeUtf8 := by rfl
  rw [hfield, JsString.decodeLossy_encodeUtf8]
  rfl

theorem decodeLossy_nil : JsString.decodeLossy [] = .empty
  := by
  rw [JsString.decodeLossy, JsString.replacingChars]
  rfl

/-- The string that is read when another one was written. -/
def stripped (s : JsString) : JsString := JsString.ofChars (JsString.stripMark s.chars)

/-- The lines of a frame. -/
def Frame.lines : Frame → List Line
  | .comment text => [lineOf (colon :: text.encodeUtf8), lineOf []]
  | .event data name =>
      name.toList.map (fun n => lineOf (eventField ++ colon :: space :: n.encodeUtf8)) ++
        [lineOf (dataField ++ colon :: space :: data.encodeUtf8), lineOf []]

/-- The message that is read from a frame. -/
def Frame.received : Frame → Option EventStreamMessage
  | .comment _ => none
  | .event data name => some ⟨.empty, (name.map stripped).getD .empty, stripped data⟩

/-! ### The messages of the lines -/

theorem parseMessage_field (s : MessageParser) (h : colon ∉ field) (value : Bytes) :
  parseMessage none s (lineOf (field ++ colon :: space :: value)) =
    parseField none s (JsString.decodeLossy field) value
  := by
  rw [lineOf_field h, parseMessage, if_neg (by simp), subarrayTo_field, valueBytes_field]

theorem parseMessage_event (s : MessageParser) (name : JsString) :
  parseMessage none s (lineOf (eventField ++ colon :: space :: name.encodeUtf8)) =
    ({ s with event := stripped name }, .ok none)
  := by
  rw [parseMessage_field s (by decide), decodeLossy_eventField, parseField, if_neg (by decide),
    if_pos rfl, JsString.decodeLossy_encodeUtf8]
  rfl

theorem parseMessage_data (s : MessageParser) (data : JsString) :
  parseMessage none s (lineOf (dataField ++ colon :: space :: data.encodeUtf8)) =
    ({ s with
        dataBytes := s.dataBytes + (data.encodeUtf8.length + 1)
        hasData := true
        data := s.data ++ (stripped data ++ JsString.ofString "\n") }, .ok none)
  := by
  rw [parseMessage_field s (by decide), decodeLossy_dataField, parseField, if_pos rfl,
    JsString.decodeLossy_encodeUtf8]
  rfl

/-- A comment has a field without a name. -/
theorem parseMessage_comment (s : MessageParser) (text : Bytes) :
  parseMessage none s (lineOf (colon :: text)) = (s, .ok none)
  := by
  have hline : lineOf (colon :: text) = (colon :: text, ((0 : ℕ) : ℤ)) :=
    lineOf_field List.not_mem_nil text
  have hfield : subarrayTo (colon :: text) ((0 : ℕ) : ℤ) = [] := subarrayTo_field [] text
  rw [hline, parseMessage, if_neg (by simp), hfield, decodeLossy_nil, parseField,
    if_neg (by decide), if_neg (by decide), if_neg (by decide), if_neg]
  rintro ⟨hretry, _⟩
  exact absurd hretry (by decide)

/-- The data of one line is that line. -/
theorem data_line (data : JsString) :
  (⟨(JsString.empty ++ (data ++ JsString.ofString "\n")).units.dropLast⟩ : JsString) = data
  := congrArg JsString.mk (List.dropLast_concat (b := 10))

theorem parseMessages_cons {s s' : MessageParser} {line : Line} {callback : Option Callback}
    (h : parseMessage none s line = (s', .ok callback)) (lines : List Line) :
  parseMessages none s (line :: lines) =
    (callback.toList ++ (parseMessages none s' lines).1, (parseMessages none s' lines).2)
  := by
  rw [parseMessages, h]

/-- An empty line completes a message with one data line. -/
theorem parseMessage_empty {s : MessageParser} (data : JsString) (hid : s.lastEventId = .empty)
    (hdata : s.data = .empty ++ (data ++ JsString.ofString "\n")) (hhas : s.hasData = true) :
  parseMessage none s (lineOf []) =
    (newMessageParser, .ok (some (.onMessage ⟨.empty, s.event, data⟩)))
  := by
  have hmessage : parseMessage none s (lineOf []) =
      ({ newMessageParser with lastEventId := s.lastEventId },
        .ok (if s.hasData then
          some (.onMessage ⟨s.lastEventId, s.event, ⟨s.data.units.dropLast⟩⟩) else none)) := rfl
  rw [hmessage, hhas, if_pos rfl, hid, hdata, data_line]
  rfl

/-- The data line and the empty line of an event. -/
theorem parseMessages_event (event data : JsString) (lines : List Line) :
  parseMessages none { newMessageParser with event := event }
      (lineOf (dataField ++ colon :: space :: data.encodeUtf8) :: lineOf [] :: lines) =
    (.onMessage ⟨.empty, event, stripped data⟩ :: (parseMessages none newMessageParser lines).1,
      (parseMessages none newMessageParser lines).2)
  := by
  rw [parseMessages_cons (parseMessage_data _ _),
    parseMessages_cons (parseMessage_empty (stripped data) rfl rfl rfl)]
  rfl

/-- The lines of a frame are consumed. -/
theorem parseMessages_lines (frame : Frame) (lines : List Line) :
  parseMessages none newMessageParser (frame.lines ++ lines) =
    (frame.received.toList.map .onMessage ++ (parseMessages none newMessageParser lines).1,
      (parseMessages none newMessageParser lines).2)
  := by
  match frame with
  | .comment text =>
      rw [Frame.lines, List.cons_append, parseMessages_cons (parseMessage_comment _ _)]
      rfl
  | .event data none => exact parseMessages_event .empty data lines
  | .event data (some name) =>
      rw [Frame.lines, Option.toList_some, List.map_singleton, List.singleton_append,
        List.cons_append, parseMessages_cons (parseMessage_event _ _)]
      exact parseMessages_event (stripped name) data lines

/-! ### The lines of the bytes -/

/-- The encoded bytes of a comment. -/
theorem encode_comment {text : JsString} (htext : text.isWellFormed = true) :
  (JsString.ofString ":" ++ text ++ JsString.ofString "\n\n").encodeUtf8 =
    (colon :: text.encodeUtf8) ++ newline :: ([] ++ newline :: [])
  := by
  have hchars : JsString.ofString ":" ++ text ++ JsString.ofString "\n\n" =
      JsString.ofChars (":".toList ++ text.chars ++ "\n\n".toList) := by
    rw [JsString.ofChars_append, JsString.ofChars_append, JsString.ofChars_chars htext]
    rfl
  rw [hchars, JsString.encodeUtf8_ofChars, List.flatMap_append, List.flatMap_append]
  rfl

variable {data : JsString}

/-- The encoded bytes of an event without a name. -/
theorem encode_unnamed (hdata : data.isWellFormed = true) :
  (eventLine none ++ JsString.ofString "data: " ++ data ++ JsString.ofString "\n\n").encodeUtf8 =
    (dataField ++ colon :: space :: data.encodeUtf8) ++ newline :: ([] ++ newline :: [])
  := by
  have hchars : eventLine none ++ JsString.ofString "data: " ++ data ++ JsString.ofString "\n\n" =
      JsString.ofChars ("data: ".toList ++ data.chars ++ "\n\n".toList) := by
    rw [JsString.ofChars_append, JsString.ofChars_append, JsString.ofChars_chars hdata]
    rfl
  rw [hchars, JsString.encodeUtf8_ofChars, List.flatMap_append, List.flatMap_append]
  rfl

/-- The encoded bytes of an event with a name. -/
theorem encode_named {name : JsString} (hdata : data.isWellFormed = true)
    (hname : name.isWellFormed = true) :
  (eventLine (some name) ++ JsString.ofString "data: " ++ data ++
      JsString.ofString "\n\n").encodeUtf8 =
    (eventField ++ colon :: space :: name.encodeUtf8) ++
      newline :: ((dataField ++ colon :: space :: data.encodeUtf8) ++
        newline :: ([] ++ newline :: []))
  := by
  have hchars : eventLine (some name) ++ JsString.ofString "data: " ++ data ++
      JsString.ofString "\n\n" =
        JsString.ofChars ("event: ".toList ++ name.chars ++ "\n".toList ++ "data: ".toList ++
          data.chars ++ "\n\n".toList) := by
    simp only [JsString.ofChars_append, JsString.ofChars_chars hdata,
      JsString.ofChars_chars hname]
    rfl
  have hbytes : ∀ n d : Bytes,
      "event: ".toList.flatMap String.utf8EncodeChar ++ n ++
          "\n".toList.flatMap String.utf8EncodeChar ++
          "data: ".toList.flatMap String.utf8EncodeChar ++ d ++
          "\n\n".toList.flatMap String.utf8EncodeChar =
        (eventField ++ colon :: space :: n) ++
          newline :: ((dataField ++ colon :: space :: d) ++ newline :: ([] ++ newline :: [])) := by
    intro n d
    have hnewlines : "\n\n".toList.flatMap String.utf8EncodeChar = [newline, newline] := rfl
    have hnewline : "\n".toList.flatMap String.utf8EncodeChar = [newline] := rfl
    have hdata : "data: ".toList.flatMap String.utf8EncodeChar = dataField ++ [colon, space] := rfl
    have hevent : "event: ".toList.flatMap String.utf8EncodeChar = eventField ++ [colon, space] :=
      rfl
    rw [hnewlines, hnewline, hdata, hevent]
    simp only [List.append_assoc, List.cons_append, List.nil_append]
  rw [hchars, JsString.encodeUtf8_ofChars]
  simp only [List.flatMap_append]
  exact hbytes name.encodeUtf8 data.encodeUtf8

/-- The bytes of a line with a field do not end it. -/
theorem isOpen_field (hfield : isOpen (field ++ [colon, space])) (hs : s.isWellFormed = true)
    (h : hasLineBreak s = false) :
  isOpen (field ++ colon :: space :: s.encodeUtf8)
  := by
  have happend : field ++ colon :: space :: s.encodeUtf8 =
      (field ++ [colon, space]) ++ s.encodeUtf8 := by
    rw [List.append_assoc]
    rfl
  rw [happend]
  exact isOpen_append hfield (isOpen_encodeUtf8 hs h)

/-- A line and the empty line after it. -/
theorem linesOf_last {line : Bytes} (h : isOpen line) (rest : Bytes) :
  linesOf none (.begun []) (line ++ newline :: ([] ++ newline :: []) ++ rest) =
    ([lineOf line, lineOf []] ++ (linesOf none (.begun []) rest).1,
      (linesOf none (.begun []) rest).2)
  := by
  rw [List.append_assoc, List.cons_append, linesOf_newline h, List.append_assoc, List.cons_append,
    linesOf_newline (fun b hb => absurd hb List.not_mem_nil)]
  rfl

/-- What the encoder accepts. -/
theorem encode_event {name : Option JsString} (h : encodeSSEEvent data name = .ok bytes) :
  hasLineBreak data = false ∧ (∀ n ∈ name, hasLineBreak n = false) ∧
    bytes = (eventLine name ++ JsString.ofString "data: " ++ data ++
      JsString.ofString "\n\n").encodeUtf8
  := by
  rw [encodeSSEEvent] at h
  split at h
  · exact absurd h (by rintro ⟨⟩)
  · rename_i hdata
    split at h
    · exact absurd h (by rintro ⟨⟩)
    · rename_i hname
      refine ⟨Bool.not_eq_true _ ▸ hdata, ?_, (Except.ok.inj h).symm⟩
      rintro n ⟨⟩
      rw [Bool.not_eq_true, Option.any_some, Bool.or_eq_false_iff] at hname
      exact hname.2

/-- The lines of an encoded frame, before those of the bytes after it. -/
theorem linesOf_encode {frame : Frame} (hframe : frame.isWellFormed) (h : frame.encode = .ok bytes)
    (rest : Bytes) :
  linesOf none (.begun []) (bytes ++ rest) =
    (frame.lines ++ (linesOf none (.begun []) rest).1, (linesOf none (.begun []) rest).2)
  := by
  match frame with
  | .comment text =>
      rw [Frame.encode, encodeSSEComment] at h
      split at h
      · exact absurd h (by rintro ⟨⟩)
      · rename_i hbreak
        obtain rfl := Except.ok.inj h
        rw [encode_comment hframe]
        have hcolon : isOpen [colon] := isOpen_of_all (by decide)
        have hopen : isOpen (colon :: text.encodeUtf8) :=
          isOpen_append hcolon (isOpen_encodeUtf8 hframe (Bool.not_eq_true _ ▸ hbreak))
        exact linesOf_last hopen rest
  | .event data none =>
      obtain ⟨hdata, _, rfl⟩ := encode_event h
      rw [encode_unnamed hframe.1]
      exact linesOf_last (isOpen_field (isOpen_of_all (by decide)) hframe.1 hdata) rest
  | .event data (some name) =>
      obtain ⟨hdata, hname, rfl⟩ := encode_event h
      have hnameOpen : isOpen (eventField ++ colon :: space :: name.encodeUtf8) :=
        isOpen_field (isOpen_of_all (by decide)) (hframe.2 name rfl) (hname name rfl)
      rw [encode_named hframe.1 (hframe.2 name rfl), List.append_assoc, List.cons_append,
        linesOf_newline hnameOpen,
        linesOf_last (isOpen_field (isOpen_of_all (by decide)) hframe.1 hdata)]
      rfl

/-! ### The round trip -/

/-- The callbacks of the messages that are read from frames. -/
def receivedCallbacks (frames : List Frame) : List Callback :=
  (frames.filterMap Frame.received).map .onMessage

/-- The callbacks of the messages of frames. -/
def messageCallbacks (frames : List Frame) : List Callback :=
  (frames.filterMap Frame.message).map .onMessage

variable {frames : List Frame}

theorem parse_encodeFrames (hframes : ∀ frame ∈ frames, frame.isWellFormed)
    (h : encodeFrames frames = .ok bytes) :
  ∃ lines s, linesOf none (.begun []) bytes = (lines, .ok (.begun [])) ∧
    parseMessages none newMessageParser lines = (receivedCallbacks frames, .ok s)
  := by
  induction frames generalizing bytes with
  | nil =>
      obtain rfl := Except.ok.inj h
      exact ⟨[], newMessageParser, rfl, rfl⟩
  | cons frame frames ih =>
      rw [encodeFrames] at h
      match hframe : frame.encode with
      | .error e =>
          rw [hframe] at h
          exact absurd h (by rintro ⟨⟩)
      | .ok first =>
          match hothers : encodeFrames frames with
          | .error e =>
              rw [hframe, hothers] at h
              exact absurd h (by rintro ⟨⟩)
          | .ok others =>
              rw [hframe, hothers] at h
              obtain rfl : first ++ others = bytes := Except.ok.inj h
              obtain ⟨lines, s, hlines, hparsed⟩ :=
                ih (fun f hf => hframes f (List.mem_cons_of_mem _ hf)) hothers
              refine ⟨frame.lines ++ lines, s, ?_, ?_⟩
              · rw [linesOf_encode (hframes frame List.mem_cons_self) hframe, hlines]
              · rw [parseMessages_lines, hparsed, receivedCallbacks, receivedCallbacks]
                match hreceived : frame.received with
                | none =>
                    rw [List.filterMap_cons_none hreceived]
                    rfl
                | some message =>
                    rw [List.filterMap_cons_some hreceived]
                    rfl

theorem parseStream_encodeFrames (hframes : ∀ frame ∈ frames, frame.isWellFormed)
    {chunks : List Bytes} (h : encodeFrames frames = .ok chunks.flatten) :
  parseStream none none chunks = (receivedCallbacks frames, .ok ())
  := by
  obtain ⟨lines, s, hlines, hparsed⟩ := parse_encodeFrames hframes h
  have hsize : validateMaxBufferSize none = .ok none := rfl
  rw [parseStream, hsize]
  dsimp only
  rw [createLineParser_lines hsize, hlines, completed]
  dsimp only
  rw [hparsed]
  rfl

/-- The string is read back unless it begins with a byte order mark. -/
theorem stripped_eq_iff (hs : s.isWellFormed = true) :
  stripped s = s ↔ ¬ beginsWithMark s
  := by
  constructor
  · intro heq hmark
    have hchars := congrArg JsString.chars heq
    rw [stripped, JsString.chars_ofChars] at hchars
    rw [beginsWithMark] at hmark
    match hs : s.chars with
    | [] =>
        rw [hs] at hmark
        exact absurd hmark (by rintro ⟨⟩)
    | c :: cs =>
        rw [hs] at hmark hchars
        rw [JsString.stripMark, if_pos (Option.some.inj hmark)] at hchars
        exact absurd (congrArg List.length hchars) (Nat.ne_of_lt (Nat.lt_succ_self _))
  · intro hmark
    rw [stripped, JsString.stripMark_eq hmark, JsString.ofChars_chars hs]

theorem received_eq_iff {frame : Frame} (h : frame.isWellFormed) :
  frame.received = frame.message ↔ frame.unmarked
  := by
  match frame with
  | .comment _ => exact iff_of_true rfl trivial
  | .event data none =>
      rw [Frame.received, Frame.message, Option.some.injEq, EventStreamMessage.mk.injEq,
        Frame.unmarked, stripped_eq_iff h.1]
      constructor
      · exact fun hmessage => ⟨hmessage.2.2, by rintro _ ⟨⟩⟩
      · exact fun hunmarked => ⟨rfl, rfl, hunmarked.1⟩
  | .event data (some name) =>
      rw [Frame.received, Frame.message, Option.some.injEq, EventStreamMessage.mk.injEq,
        Frame.unmarked, stripped_eq_iff h.1, Option.map_some, Option.getD_some, Option.getD_some,
        stripped_eq_iff (h.2 name rfl)]
      constructor
      · rintro ⟨_, hname, hdata⟩
        refine ⟨hdata, ?_⟩
        rintro n ⟨⟩
        exact hname
      · exact fun hunmarked => ⟨rfl, hunmarked.2 name rfl, hunmarked.1⟩

theorem receivedCallbacks_eq_iff (hframes : ∀ frame ∈ frames, frame.isWellFormed) :
  receivedCallbacks frames = messageCallbacks frames ↔ ∀ frame ∈ frames, frame.unmarked
  := by
  induction frames with
  | nil => exact iff_of_true rfl fun frame hframe => absurd hframe List.not_mem_nil
  | cons frame frames ih =>
      rw [List.forall_mem_cons, ← received_eq_iff (hframes frame List.mem_cons_self),
        ← ih (fun f hf => hframes f (List.mem_cons_of_mem _ hf))]
      match frame with
      | .comment text =>
          have hreceived : receivedCallbacks (.comment text :: frames) = receivedCallbacks frames :=
            rfl
          have hmessage : messageCallbacks (.comment text :: frames) = messageCallbacks frames := rfl
          rw [hreceived, hmessage]
          exact ⟨fun h => ⟨rfl, h⟩, fun h => h.2⟩
      | .event data name =>
          have hcons : ∀ m n : EventStreamMessage, ∀ rest others : List Callback,
              Callback.onMessage m :: rest = .onMessage n :: others ↔
                some m = some n ∧ rest = others := by
            intro m n rest others
            rw [List.cons.injEq, Callback.onMessage.injEq, Option.some.injEq]
          exact hcons _ _ _ _

/-- The messages that are parsed from the bytes of frames are the ones that were encoded, in
order, exactly when no data and no name begins with a byte order mark. -/
theorem parseStream_roundTrip {frames : List Frame}
    (hframes : ∀ frame ∈ frames, frame.isWellFormed) {chunks : List Bytes}
    (h : encodeFrames frames = .ok chunks.flatten) :
  parseStream none none chunks = (messageCallbacks frames, .ok ()) ↔
    ∀ frame ∈ frames, frame.unmarked
  := by
  rw [parseStream_encodeFrames hframes h, Prod.mk.injEq, ← receivedCallbacks_eq_iff hframes]
  exact ⟨fun h => h.1, fun h => ⟨h, rfl⟩⟩

/-- A comment and an event in two chunks. -/
theorem parseStream_roundTrip_two :
  parseStream none none [[58, 104, 10], [10, 100, 97, 116, 97, 58, 32, 97, 10, 10]] =
      (messageCallbacks [.comment ⟨[104]⟩, .event ⟨[97]⟩ none], .ok ()) ↔
    ∀ frame ∈ [Frame.comment ⟨[104]⟩, .event ⟨[97]⟩ none], frame.unmarked
  := by
  have hframes : ∀ frame ∈ [Frame.comment ⟨[104]⟩, .event ⟨[97]⟩ none], frame.isWellFormed := by
    intro frame hframe
    rw [List.mem_cons, List.mem_singleton] at hframe
    obtain rfl | rfl := hframe
    · rfl
    · exact ⟨rfl, by rintro _ ⟨⟩⟩
  exact parseStream_roundTrip hframes rfl

/-- The data of an event that begins with a byte order mark is read without it. -/
theorem parseStream_marked :
  ∃ frames : List Frame, ∃ chunks : List Bytes, (∀ frame ∈ frames, frame.isWellFormed) ∧
    encodeFrames frames = .ok chunks.flatten ∧
    parseStream none none chunks ≠ (messageCallbacks frames, .ok ())
  := by
  use [.event ⟨[0xFEFF, 97]⟩ none]
  use [[100, 97, 116, 97, 58, 32, 239, 187, 191, 97, 10, 10]]
  have hframes : ∀ frame ∈ [Frame.event ⟨[0xFEFF, 97]⟩ none], frame.isWellFormed := by
    intro frame hframe
    obtain rfl := List.mem_singleton.mp hframe
    exact ⟨rfl, by rintro _ ⟨⟩⟩
  refine ⟨hframes, rfl, ?_⟩
  rw [parseStream_encodeFrames hframes rfl]
  decide

end Transport.Sse
