import GoLike.Client.StreamFrames
import GoLike.Transport.Sse.RoundTrip

/-!
# The messages of a stream

A frame ends with an empty line, after which the parsers go on as new ones do, except for the
last identifier. So the messages of a body are those of its frames, one after the other, and
of the bytes behind the last frame. The client processes the last message of each frame.
-/

open Transport.Sse

namespace Client

/-! ### The lines of a frame -/

/-- Without a ceiling no line is refused. -/
theorem splitLines_ok (p : Pending) (bytes : Bytes) :
  ∃ q, (splitLines none p bytes).2 = .ok q
  := by
  induction bytes generalizing p with
  | nil => exact ⟨p, rfl⟩
  | cons b bytes ih =>
      rw [splitLines]
      split
      · exact ih _
      · split
        · exact ih _
        · exact ih _

/-- The bytes with which a frame ends. -/
def isBoundary (bytes : Bytes) : Prop :=
  bytes = [newline, newline] ∨ bytes = [carriageReturn, newline, carriageReturn, newline]

/-- The empty line. -/
def emptyLine : Line := ([], -1)

/-- A boundary ends with an empty line, after which a new line begins. -/
theorem splitLines_boundary (p : Pending) {bytes : Bytes} (h : isBoundary bytes) :
  ∃ lines, splitLines none p bytes = (lines ++ [emptyLine], .ok (.begun []))
  := by
  obtain rfl | rfl := h
  · cases p with
    | begun line => exact ⟨[lineOf line], rfl⟩
    | returned => exact ⟨[], rfl⟩
  · cases p with
    | begun line => exact ⟨[lineOf line], rfl⟩
    | returned => exact ⟨[emptyLine], rfl⟩

theorem splitLines_frame {frame body boundary : Bytes} (hframe : frame = body ++ boundary)
    (h : isBoundary boundary) :
  ∃ lines, splitLines none (.begun []) frame = (lines ++ [emptyLine], .ok (.begun []))
  := by
  obtain ⟨q, hq⟩ := splitLines_ok (.begun []) body
  obtain ⟨lines, hlines⟩ := splitLines_boundary q h
  rw [hframe, (splitLines_append body boundary).2 q hq, hlines]
  exact ⟨(splitLines none (.begun []) body).1 ++ lines, by rw [List.append_assoc]⟩

/-- The bytes up to a boundary end with it. -/
theorem take_searchBoundary {bytes : Bytes} {index boundary : ℕ}
    (h : searchBoundary bytes index = some boundary) :
  ∃ body tail, bytes.take (boundary - index) = body ++ tail ∧ isBoundary tail
  := by
  induction bytes generalizing index with
  | nil => cases h
  | cons b rest ih =>
      rw [searchBoundary] at h
      split at h
      · rename_i length hlength
        cases h
        rw [Nat.add_sub_cancel_left]
        rw [boundaryAt] at hlength
        split at hlength
        · rename_i hbelow
          cases hlength
          obtain ⟨more, hmore⟩ := List.isPrefixOf_iff_prefix.mp hbelow
          refine ⟨[], [newline, newline], ?_, .inl rfl⟩
          rw [← hmore]
          rfl
        · split at hlength
          · rename_i hbelow
            cases hlength
            obtain ⟨more, hmore⟩ := List.isPrefixOf_iff_prefix.mp hbelow
            refine ⟨[], _, ?_, .inr rfl⟩
            rw [← hmore]
            rfl
          · cases hlength
      · obtain ⟨body, tail, htake, htail⟩ := ih h
        have hlt := (le_searchBoundary h).1
        refine ⟨b :: body, tail, ?_, htail⟩
        have hsucc : boundary - index = (boundary - (index + 1)) + 1 := by omega
        rw [hsucc, List.take_succ_cons, htake, List.cons_append]

/-! ### The messages of lines -/

/-- What is processed of a message. -/
def content (message : EventStreamMessage) : JsString × JsString := (message.event, message.data)

/-- The contents of the messages among callbacks. -/
def contents (callbacks : List Callback) : List (JsString × JsString) :=
  (callbacks.filterMap messageOf).map content

/-- The parsers agree but for the last identifier. -/
def Alike (s t : MessageParser) : Prop :=
  t = { s with lastEventId := t.lastEventId }

theorem parseField_alike (s : MessageParser) (id field : JsString) (bytes : Bytes) :
  ∃ s' t' c d, parseField none s field bytes = (s', .ok c) ∧
    parseField none { s with lastEventId := id } field bytes = (t', .ok d) ∧
    Alike s' t' ∧ contents c.toList = contents d.toList
  := by
  rw [parseField, parseField]
  dsimp only
  split
  · exact ⟨_, _, none, none, rfl, rfl, rfl, rfl⟩
  · split
    · exact ⟨_, _, none, none, rfl, rfl, rfl, rfl⟩
    · split
      · split
        · exact ⟨_, _, none, none, rfl, rfl, rfl, rfl⟩
        · exact ⟨_, _, _, _, rfl, rfl, rfl, rfl⟩
      · split
        · exact ⟨_, _, _, _, rfl, rfl, rfl, rfl⟩
        · exact ⟨_, _, none, none, rfl, rfl, rfl, rfl⟩

/-- Without a ceiling no line is refused, and what is processed of its message does not
depend on the last identifier. -/
theorem parseMessage_alike {s t : MessageParser} (h : Alike s t) (line : Line) :
  ∃ s' t' c d, parseMessage none s line = (s', .ok c) ∧ parseMessage none t line = (t', .ok d) ∧
    Alike s' t' ∧ contents c.toList = contents d.toList
  := by
  rw [h]
  obtain ⟨line, fieldLength⟩ := line
  rw [parseMessage, parseMessage]
  dsimp only
  split
  · cases hdata : s.hasData with
    | true | false => exact ⟨_, _, _, _, rfl, rfl, rfl, rfl⟩
  · exact parseField_alike s _ _ _

theorem parseMessages_alike {s t : MessageParser} (h : Alike s t) (lines : List Line) :
  ∃ s' t', (parseMessages none s lines).2 = .ok s' ∧ (parseMessages none t lines).2 = .ok t' ∧
    Alike s' t' ∧
    contents (parseMessages none s lines).1 = contents (parseMessages none t lines).1
  := by
  induction lines generalizing s t with
  | nil => exact ⟨s, t, rfl, rfl, h, rfl⟩
  | cons line lines ih =>
      obtain ⟨s₁, t₁, c, d, hs, ht, halike, hcontents⟩ := parseMessage_alike h line
      obtain ⟨s', t', hs', ht', halike', hcontents'⟩ := ih halike
      rw [parseMessages, parseMessages, hs, ht]
      refine ⟨s', t', hs', ht', halike', ?_⟩
      simp only [contents, List.filterMap_append, List.map_append] at hcontents hcontents' ⊢
      rw [hcontents, hcontents']

theorem parseMessages_append {s s' : MessageParser} {lines : List Line}
    (h : (parseMessages none s lines).2 = .ok s') (more : List Line) :
  parseMessages none s (lines ++ more) =
    ((parseMessages none s lines).1 ++ (parseMessages none s' more).1,
      (parseMessages none s' more).2)
  := by
  induction lines generalizing s with
  | nil =>
      cases h
      rfl
  | cons line lines ih =>
      obtain ⟨s₁, -, c, -, hs, -⟩ := parseMessage_alike (s := s) (t := s) rfl line
      rw [parseMessages, hs] at h
      rw [List.cons_append, parseMessages, parseMessages, hs]
      dsimp only
      rw [ih h, List.append_assoc]

/-- After an empty line the parser goes on as a new one. -/
theorem parseMessages_emptyLine {s s' : MessageParser} {lines : List Line}
    (h : (parseMessages none s (lines ++ [emptyLine])).2 = .ok s') :
  Alike newMessageParser s'
  := by
  obtain ⟨t, -, ht, -⟩ := parseMessages_alike (s := s) (t := s) rfl lines
  rw [parseMessages_append ht] at h
  cases h
  rfl

/-! ### The messages of a body -/

/-- What is processed of the messages that new parsers report for bytes. -/
def contentsOf (bytes : Bytes) : List (JsString × JsString) := (messagesOf bytes).map content

theorem contentsOf_eq (bytes : Bytes) :
  contentsOf bytes =
    contents (parseMessages none newMessageParser (splitLines none (.begun []) bytes).1).1
  := by
  rw [contentsOf, messagesOf, parseStream]
  have hlines : createLineParser none [bytes] = completed (linesOf none (.begun []) bytes) := by
    rw [createLineParser_lines rfl, List.flatten_singleton]
  dsimp only [validateMaxBufferSize]
  rw [hlines]
  rfl

/-- The messages behind a frame do not depend on the frame. -/
theorem contentsOf_append {frame body boundary : Bytes} (hframe : frame = body ++ boundary)
    (h : isBoundary boundary) (rest : Bytes) :
  contentsOf (frame ++ rest) = contentsOf frame ++ contentsOf rest
  := by
  obtain ⟨lines, hlines⟩ := splitLines_frame hframe h
  have hframe : (splitLines none (.begun []) frame).2 = .ok (.begun []) := by rw [hlines]
  have hsplit := (splitLines_append frame rest).2 _ hframe
  obtain ⟨s, -, hs, -⟩ := parseMessages_alike (s := newMessageParser)
    (t := newMessageParser) rfl (lines ++ [emptyLine])
  obtain ⟨-, -, -, -, -, hrest⟩ := parseMessages_alike (parseMessages_emptyLine hs)
    (splitLines none (.begun []) rest).1
  rw [contentsOf_eq, contentsOf_eq frame, contentsOf_eq rest, hsplit, hlines,
    parseMessages_append hs, hrest]
  simp only [contents, List.filterMap_append, List.map_append]

/-- The messages of bytes are those of their frames, and of what is left. -/
theorem contentsOf_splitFrames (bytes : Bytes) :
  contentsOf bytes =
    (splitFrames bytes).1.flatMap contentsOf ++ contentsOf (splitFrames bytes).2
  := by
  induction bytes using splitFrames.induct with
  | case1 bytes h =>
      rw [splitFrames_none h]
      rfl
  | case2 bytes boundary h ih =>
      obtain ⟨body, tail, htake, htail⟩ := take_searchBoundary h
      rw [Nat.sub_zero, List.drop_zero] at htake
      rw [splitFrames_some h, List.flatMap_cons, List.append_assoc, ← ih,
        ← contentsOf_append htake htail, List.take_append_drop]

/-! ### The messages that are processed -/

variable {α : Type}

/-- The message ends the stream: it is an end or an error event, or does not match the
response struct. -/
def stops (decode : JsString → Option α) (c : JsString × JsString) : Bool :=
  c.1 = JsString.ofString "end" || c.1 = JsString.ofString "error" ||
    (c.1 = .empty && (decode c.2).isNone)

/-- Messages up to the first one that ends the stream. -/
def upToEnd (decode : JsString → Option α) :
    List ((JsString × JsString) × ℕ) → List ((JsString × JsString) × ℕ)
  | [] => []
  | c :: cs => if stops decode c.1 then [c] else c :: upToEnd decode cs

/-- Each frame up to the first message that ends the stream has at most one message, and
when no message ends the stream, there is none behind the last frame. -/
def separated (decode : JsString → Option α) (rest : Bytes) : List Bytes → Prop
  | [] => contentsOf rest = []
  | frame :: frames =>
      match contentsOf frame with
      | [] => separated decode rest frames
      | [c] => stops decode c = true ∨ separated decode rest frames
      | _ => False

/-- The frames of the bytes separate the messages. -/
def Separated (decode : JsString → Option α) (bytes : Bytes) : Prop :=
  separated decode (splitFrames bytes).2 (splitFrames bytes).1

/-- What was processed, each message with the number of messages before it. -/
def Progress.contents (p : Progress α) : List ((JsString × JsString) × ℕ) :=
  p.processed.map (fun x => (content x.1, x.2))

/-- The last messages of frames, up to the first one that ends the stream. -/
def lastMessages (decode : JsString → Option α) (reported : ℕ) :
    List Bytes → List ((JsString × JsString) × ℕ)
  | [] => []
  | frame :: frames =>
      let reported' := reported + (contentsOf frame).length
      match (contentsOf frame).getLast? with
      | none => lastMessages decode reported' frames
      | some c =>
          if stops decode c then [(c, reported' - 1)]
          else (c, reported' - 1) :: lastMessages decode reported' frames

variable {decode : JsString → Option α} {maxEventBytes : ℕ}

variable (decode) in
/-- A message ends the stream if it stops it, and not because of the limit. -/
theorem message_spec (p : Progress α) (hp : p.ending = none) (message : EventStreamMessage) :
  (p.message decode message).ending.isSome = stops decode (content message) ∧
    (p.message decode message).processed = p.processed ∧
    (p.message decode message).reported = p.reported ∧ ¬ Trips (p.message decode message)
  := by
  rw [Progress.message, stops, content]
  dsimp only
  by_cases hend : message.event = JsString.ofString "end"
  · rw [if_pos hend, decide_eq_true hend]
    refine ⟨rfl, rfl, rfl, ?_⟩
    rintro ⟨actual, ⟨⟩⟩
  · rw [if_neg hend, decide_eq_false hend]
    by_cases herror : message.event = JsString.ofString "error"
    · rw [if_pos herror, decide_eq_true herror]
      refine ⟨rfl, rfl, rfl, ?_⟩
      rintro ⟨actual, ⟨⟩⟩
    · rw [if_neg herror, decide_eq_false herror]
      by_cases hunnamed : message.event = .empty
      · rw [if_pos hunnamed, decide_eq_true hunnamed]
        cases hdecode : decode message.data with
        | some value =>
            refine ⟨by rw [hp]; rfl, rfl, rfl, ?_⟩
            rintro ⟨actual, hactual⟩
            rw [hp] at hactual
            cases hactual
        | none =>
            refine ⟨rfl, rfl, rfl, ?_⟩
            rintro ⟨actual, ⟨⟩⟩
      · rw [if_neg hunnamed, decide_eq_false hunnamed]
        refine ⟨by rw [hp]; rfl, rfl, rfl, ?_⟩
        rintro ⟨actual, hactual⟩
        rw [hp] at hactual
        cases hactual

theorem contentsOf_getLast? (frame : Bytes) :
  (contentsOf frame).getLast? = (parseFrame frame).map content
  := by rw [contentsOf, parseFrame, List.getLast?_map]

/-- The last messages of the frames are the ones processed. -/
theorem processFrames_contents (p : Progress α) (hp : p.ending = none) (frames : List Bytes)
    (htrips : ¬ Trips (processFrames decode maxEventBytes p frames)) :
  (processFrames decode maxEventBytes p frames).contents =
    p.contents ++ lastMessages decode p.reported frames
  := by
  induction frames generalizing p with
  | nil => rw [processFrames, lastMessages, List.append_nil]
  | cons frame frames ih =>
      rw [processFrames] at htrips ⊢
      by_cases hlarge : maxEventBytes < frame.length
      · rw [Progress.frame, if_pos hlarge] at htrips
        exact absurd ⟨_, rfl⟩ htrips
      · have hlength : (contentsOf frame).length = (messagesOf frame).length := List.length_map _
        have hlast := contentsOf_getLast? frame
        rw [Progress.frame, if_neg hlarge] at htrips ⊢
        rw [lastMessages, hlength, hlast]
        cases hmessage : parseFrame frame with
        | none =>
            rw [hmessage] at htrips
            dsimp only [Option.map_none] at htrips ⊢
            rw [if_neg (by rw [hp]; exact Bool.false_ne_true)] at htrips ⊢
            exact ih _ hp htrips
        | some message =>
            rw [hmessage] at htrips
            dsimp only [Option.map_some] at htrips ⊢
            obtain ⟨hending, hprocessed, hreported, -⟩ := message_spec decode
              { p with
                reported := p.reported + (messagesOf frame).length
                processed := p.processed ++
                  [(message, p.reported + (messagesOf frame).length - 1)] } hp message
            rw [hending] at htrips ⊢
            by_cases hstops : stops decode (content message) = true
            · rw [if_pos hstops, if_pos hstops, Progress.contents, hprocessed, List.map_append]
              rfl
            · rw [if_neg hstops] at htrips
              rw [if_neg hstops, if_neg hstops,
                ih _ (Option.not_isSome_iff_eq_none.mp (by rw [hending]; exact hstops)) htrips,
                Progress.contents, hprocessed, hreported, List.map_append, List.append_assoc]
              rfl

/-- The last messages of frames are all their messages just when the frames separate them. -/
theorem lastMessages_eq_iff (reported : ℕ) (frames : List Bytes) (rest : Bytes) :
  lastMessages decode reported frames =
      upToEnd decode ((frames.flatMap contentsOf ++ contentsOf rest).zipIdx reported) ↔
    separated decode rest frames
  := by
  induction frames generalizing reported with
  | nil =>
      rw [lastMessages, separated, List.flatMap_nil, List.nil_append]
      cases contentsOf rest with
      | nil => simp [upToEnd]
      | cons c cs =>
          rw [List.zipIdx_cons, upToEnd]
          constructor
          · intro h
            split at h
            · cases h
            · cases h
          · rintro ⟨⟩
  | cons frame frames ih =>
      rw [lastMessages, separated, List.flatMap_cons]
      cases hcontents : contentsOf frame with
      | nil => exact ih reported
      | cons c cs =>
          cases cs with
          | nil =>
              have hzip : ([c] ++ frames.flatMap contentsOf ++ contentsOf rest).zipIdx reported =
                  (c, reported) ::
                    (frames.flatMap contentsOf ++ contentsOf rest).zipIdx (reported + 1) := by
                rw [List.append_assoc, List.singleton_append, List.zipIdx_cons]
              rw [hzip, upToEnd]
              dsimp only [List.length_cons, List.length_nil, List.getLast?_singleton]
              by_cases hstops : stops decode c = true
              · rw [if_pos hstops, if_pos hstops]
                exact ⟨fun _ => .inl hstops, fun _ => rfl⟩
              · rw [if_neg hstops, if_neg hstops, Nat.zero_add, Nat.add_sub_cancel,
                  List.cons.injEq, ih (reported + 1)]
                constructor
                · rintro ⟨-, h⟩
                  exact .inr h
                · rintro (h | h)
                  · exact absurd h hstops
                  · exact ⟨rfl, h⟩
          | cons d cs =>
              -- the last message of the frame has another number than the first one
              have hzip : (c :: d :: cs ++ frames.flatMap contentsOf ++ contentsOf rest).zipIdx
                    reported =
                  (c, reported) ::
                    (d :: cs ++ frames.flatMap contentsOf ++ contentsOf rest).zipIdx
                      (reported + 1) := by
                rw [List.cons_append, List.cons_append, List.zipIdx_cons]
              rw [hzip, upToEnd]
              obtain ⟨x, hx⟩ : ∃ x, (c :: d :: cs).getLast? = some x :=
                Option.isSome_iff_exists.mp (by simp)
              rw [hx]
              dsimp only
              constructor
              · intro h
                have hnumber : reported + (c :: d :: cs).length - 1 = reported := by
                  split at h
                  · split at h
                    · exact congrArg Prod.snd (List.cons.inj h).1
                    · exact congrArg Prod.snd (List.cons.inj h).1
                  · split at h
                    · exact congrArg Prod.snd (List.cons.inj h).1
                    · exact congrArg Prod.snd (List.cons.inj h).1
                simp only [List.length_cons] at hnumber
                omega
              · rintro ⟨⟩

/-! ### The limit -/

theorem frame_not_trips (p : Progress α) (hp : p.ending = none) {frame : Bytes}
    (hle : frame.length ≤ maxEventBytes) :
  ¬ Trips (p.frame decode maxEventBytes frame)
  := by
  rw [Progress.frame, if_neg (Nat.not_lt.mpr hle)]
  cases parseFrame frame with
  | none =>
      rintro ⟨actual, hactual⟩
      dsimp only at hactual
      rw [hp] at hactual
      cases hactual
  | some message =>
      dsimp only
      exact (message_spec decode { p with
        reported := p.reported + (messagesOf frame).length
        processed := p.processed ++
          [(message, p.reported + (messagesOf frame).length - 1)] } hp message).2.2.2

variable (decode) in
/-- Pending bytes that are not too many have no frame that trips the limit. -/
theorem takeFrames_not_trips (p : Progress α) (hp : p.ending = none) (pending : PendingBytes)
    (hle : pending.bytes.byteLength ≤ maxEventBytes) :
  let taken := takeFrames decode maxEventBytes p pending
  ¬ Trips taken.1 ∧ taken.2.bytes.byteLength ≤ pending.bytes.byteLength
  := by
  induction hlength : pending.bytes.byteLength using Nat.strong_induction_on
    generalizing p pending with
  | _ length ih =>
      cases hboundary : eventBoundary pending.bytes.bytes pending.scanned with
      | none =>
          rw [takeFrames_none decode maxEventBytes p hboundary]
          refine ⟨?_, le_of_eq hlength⟩
          rintro ⟨actual, hactual⟩
          rw [hp] at hactual
          cases hactual
      | some boundary =>
          have hfound := le_searchBoundary hboundary
          rw [List.length_drop, View.length_bytes] at hfound
          have hframe : (pending.bytes.bytes.take boundary).length ≤ maxEventBytes := by
            rw [List.length_take, View.length_bytes]
            omega
          rw [takeFrames_some decode maxEventBytes p hboundary]
          dsimp only
          split
          · exact ⟨frame_not_trips p hp hframe, by dsimp only [View.subarray]; omega⟩
          · rename_i hgoing
            have hrest := ih (pending.bytes.byteLength - boundary) (by omega)
              (p.frame decode maxEventBytes (pending.bytes.bytes.take boundary))
              (Option.not_isSome_iff_eq_none.mp hgoing)
              ⟨pending.bytes.subarray boundary, 0⟩
              (by dsimp only [View.subarray]; omega) rfl
            exact ⟨hrest.1, Nat.le_trans hrest.2 (by omega)⟩

theorem checkUnfinished_of_le (p : Progress α) {pending : PendingBytes}
    (hle : pending.bytes.byteLength ≤ maxEventBytes) :
  checkUnfinished maxEventBytes p pending = p
  := by
  rw [checkUnfinished]
  split
  · rfl
  · rw [if_neg (Nat.not_lt.mpr hle)]

theorem byteLength_appendBytes (pending : PendingBytes) (chunk : Bytes) :
  (appendBytes pending chunk).bytes.byteLength = pending.bytes.byteLength + chunk.length
  := by
  rw [← View.length_bytes, bytes_appendBytes, List.length_append, View.length_bytes]

theorem iterateFrom_not_trips (p : Progress α) (hp : p.ending = none) (pending : PendingBytes)
    (chunks : List Bytes)
    (hle : pending.bytes.byteLength + chunks.flatten.length ≤ maxEventBytes) :
  ¬ Trips (iterateFrom decode maxEventBytes p pending chunks)
  := by
  induction chunks generalizing p pending with
  | nil =>
      obtain ⟨htaken, hshorter⟩ := takeFrames_not_trips decode p hp pending
        (Nat.le_of_add_right_le hle)
      rw [iterateFrom]
      rw [checkUnfinished_of_le _ (Nat.le_trans hshorter (Nat.le_of_add_right_le hle))]
      split
      · exact htaken
      · rintro ⟨actual, ⟨⟩⟩
  | cons chunk chunks ih =>
      rw [List.flatten_cons, List.length_append, ← Nat.add_assoc,
        ← byteLength_appendBytes] at hle
      obtain ⟨htaken, hshorter⟩ := takeFrames_not_trips decode p hp
        (appendBytes pending chunk) (Nat.le_of_add_right_le hle)
      rw [iterateFrom]
      rw [checkUnfinished_of_le _ (Nat.le_trans hshorter (Nat.le_of_add_right_le hle))]
      split
      · exact htaken
      · rename_i hgoing
        exact ih _ (Option.not_isSome_iff_eq_none.mp hgoing) _ (by omega)

/-- A limit of at least the length of the body does not trip. -/
theorem iterate_not_trips {chunks : List Bytes} (hle : chunks.flatten.length ≤ maxEventBytes) :
  ¬ Trips (iterate decode maxEventBytes chunks)
  := by
  apply iterateFrom_not_trips noProgress rfl noBytes chunks
  rw [noBytes, Nat.zero_add]
  exact hle

/-- The messages that are processed are the last ones of the frames. -/
theorem contents_iterate {chunks : List Bytes}
    (htrips : ¬ Trips (iterate decode maxEventBytes chunks)) :
  (iterate decode maxEventBytes chunks).contents =
    lastMessages decode 0 (splitFrames chunks.flatten).1
  := by
  let p : Progress α := processFrames decode maxEventBytes noProgress
    (splitFrames chunks.flatten).1
  have hiterate := iterate_eq chunks htrips
  have hframes : ¬ Trips p := by
    intro hlarge
    obtain ⟨actual, hactual⟩ := hlarge
    apply htrips
    refine ⟨actual, ?_⟩
    rw [hiterate, iterateFrames, if_pos (by rw [hactual]; rfl)]
    exact hactual
  have hcontents : (iterate decode maxEventBytes chunks).contents = p.contents := by
    rw [hiterate, iterateFrames]
    split
    · rfl
    · rfl
  rw [hcontents, processFrames_contents noProgress rfl _ hframes]
  rfl

/-- The result of a stream whose limit does not trip does not depend on how its body is cut
into chunks. The messages that are processed are those that the parsers report for the whole
body, up to the first one that ends the stream, just when the frames separate them. -/
theorem iterate_delivers (decode : JsString → Option α) (maxEventBytes : ℕ) (chunks : List Bytes)
    (htrips : ¬ Trips (iterate decode maxEventBytes chunks)) :
  (∀ chunks' : List Bytes, chunks'.flatten = chunks.flatten →
    ¬ Trips (iterate decode maxEventBytes chunks') →
    iterate decode maxEventBytes chunks' = iterate decode maxEventBytes chunks) ∧
  ((iterate decode maxEventBytes chunks).contents =
      upToEnd decode ((contentsOf chunks.flatten).zipIdx) ↔
    Separated decode chunks.flatten)
  := by
  constructor
  · intro chunks' hflatten htrips'
    rw [iterate_eq chunks' htrips', iterate_eq chunks htrips, hflatten]
  · rw [contents_iterate htrips, contentsOf_splitFrames]
    exact lastMessages_eq_iff 0 _ _

/-- The body of two data lines, with bytes between them and behind them. -/
def twoMessages (between : Bytes) : Bytes :=
  dataField ++ colon :: space :: 49 :: between ++
    (dataField ++ colon :: space :: 50 :: [newline, newline])

/-- The client delivers two messages that two line feeds separate. -/
theorem iterate_delivers_two :
  (∀ chunks' : List Bytes, chunks'.flatten = twoMessages [newline, newline] →
    ¬ Trips (iterate some 100 chunks') →
    iterate some 100 chunks' = iterate some 100 [twoMessages [newline, newline]]) ∧
  ((iterate some 100 [twoMessages [newline, newline]]).contents =
      upToEnd some ((contentsOf (twoMessages [newline, newline])).zipIdx) ↔
    Separated some (twoMessages [newline, newline]))
  := iterate_delivers some 100 [twoMessages [newline, newline]] (iterate_not_trips (by decide))

/-- The content of a message with one data line. -/
theorem contents_data (data : JsString) (lines : List Line) :
  contents (parseMessages none newMessageParser
      (lineOf (dataField ++ colon :: space :: data.encodeUtf8) :: lineOf [] :: lines)).1 =
    (.empty, stripped data) :: contents (parseMessages none newMessageParser lines).1
  := by
  have hevent := parseMessages_event .empty data lines
  exact congrArg (fun x => contents x.1) hevent

/-- Two carriage returns complete a message of the parsers, but not a frame, so the client
drops the first message. -/
theorem iterate_drops :
  ¬ Trips (iterate some 100 [twoMessages [carriageReturn, carriageReturn]]) ∧
  contentsOf (twoMessages [carriageReturn, carriageReturn]) =
    [(.empty, JsString.ofString "1"), (.empty, JsString.ofString "2")] ∧
  (iterate some 100 [twoMessages [carriageReturn, carriageReturn]]).contents =
    [((.empty, JsString.ofString "2"), 1)] ∧
  (iterate some 100 [twoMessages [carriageReturn, carriageReturn]]).contents ≠
    upToEnd some ((contentsOf (twoMessages [carriageReturn, carriageReturn])).zipIdx)
  := by
  let body : Bytes := twoMessages [carriageReturn, carriageReturn]
  have htrips : ¬ Trips (iterate some 100 [body]) := iterate_not_trips (by decide)
  have hreported : contentsOf body =
      [(.empty, JsString.ofString "1"), (.empty, JsString.ofString "2")] := by
    have hlines : (splitLines none (.begun []) body).1 =
        [lineOf (dataField ++ colon :: space :: (JsString.ofString "1").encodeUtf8), lineOf [],
          lineOf (dataField ++ colon :: space :: (JsString.ofString "2").encodeUtf8),
          lineOf []] := by rfl
    rw [contentsOf_eq, hlines, contents_data, contents_data]
    rfl
  have hframes : (splitFrames body).1 = [body] := by
    have hboundary : eventBoundary body 0 = some 18 := by decide
    have hbehind : splitFrames (body.drop 18) = ([], []) := splitFrames_none (by decide)
    rw [splitFrames_some hboundary, hbehind]
    rfl
  have hcontents : (iterate some 100 [body]).contents = [((.empty, JsString.ofString "2"), 1)] := by
    rw [contents_iterate htrips, List.flatten_singleton, hframes, lastMessages, hreported]
    rfl
  refine ⟨htrips, hreported, hcontents, ?_⟩
  rw [hcontents, hreported]
  decide

end Client
