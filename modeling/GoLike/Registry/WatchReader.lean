import GoLike.Lib.Utf8Stream
import GoLike.Registry.Instance

/-!
# Reading the frames of a watch

The body of a watch response is read chunk by chunk. A frame is a line of its text; the limit of
a line counts its bytes, of which some may belong to a character that is not complete yet. What
is read depends on the body only and not on its chunks.
-/

open JsString

namespace Registry

/-- What a provider makes of a line. -/
structure FrameFormat (ε φ : Type) where
  /-- The part of a line that is parsed, if it is not empty. -/
  strip : List Char → List Char
  strip_nil : strip [] = []
  parseFrame : List Char → Except ε φ

/-- How the frames of a stream end. -/
inductive StreamEnd (ε : Type) where
  /-- The stream is at its end. -/
  | ended
  /-- A line exceeds the byte limit. -/
  | refused
  /-- The bytes are not UTF-8. -/
  | invalidUtf8
  /-- A line is not a frame. -/
  | failed (e : ε)

/-- A watch stream. -/
structure WatchStream where
  /-- The chunks that are still to be received. -/
  chunks : List (List UInt8)
  decoder : Utf8Decoder
  buffer : List Char
  bufferedBytes : ℤ

/-- The frames that are read one after the other, and how they end. -/
inductive Reads {σ ε φ : Type} (read : σ → Except ε φ × σ) : σ → List φ × ε → Prop where
  | frame {s s' : σ} {f : φ} {fs : List φ} {e : ε} (hread : read s = (.ok f, s'))
      (hrest : Reads read s' (fs, e)) : Reads read s (f :: fs, e)
  | finish {s s' : σ} {e : ε} (hread : read s = (.error e, s')) : Reads read s ([], e)

namespace WatchStream

def MaximumWatchFrameBytes : ℕ := 1048576

/-- The newline, which ends a line. -/
def newline : Char := Char.ofNat 10

/-- A stream of which nothing was received yet. -/
def start (chunks : List (List UInt8)) : WatchStream := ⟨chunks, .start, [], 0⟩

/-- The text before the first newline and the text behind it. -/
def cutLine : List Char → Option (List Char × List Char)
  | [] => none
  | c :: cs =>
      if c = newline then some ([], cs)
      else (cutLine cs).map (fun cut => (c :: cut.1, cut.2))

/-- What one turn of the reader comes to. -/
inductive Turn (ε φ : Type) where
  /-- The reader goes on. -/
  | again (s : WatchStream)
  | frame (f : φ) (s : WatchStream)
  | finish (e : StreamEnd ε) (s : WatchStream)

variable {ε φ : Type}

/-- Parse a line, unless nothing of it is to be parsed. -/
def parseLine (format : FrameFormat ε φ) (line : List Char) (s : WatchStream)
    (blank : Turn ε φ) : Turn ε φ :=
  if format.strip line = [] then blank
  else
    match format.parseFrame (format.strip line) with
    | .ok f => .frame f s
    | .error e => .finish (.failed e) s

/-- One turn of the reader: a line of the buffer, or one more chunk, or the end. -/
def turn (format : FrameFormat ε φ) (s : WatchStream) : Turn ε φ :=
  match cutLine s.buffer with
  | some (line, rest) =>
      let consumed := (utf8 (line ++ [newline])).length
      if consumed - 1 > MaximumWatchFrameBytes then .finish .refused s
      else
        let s := { s with buffer := rest, bufferedBytes := s.bufferedBytes - consumed }
        parseLine format line s (.again s)
  | none =>
      if s.bufferedBytes > MaximumWatchFrameBytes then .finish .refused s
      else
        match s.chunks with
        | [] =>
            if s.decoder.needed ≠ 0 then .finish .invalidUtf8 s
            else
              let tail := s.buffer
              let s := { s with buffer := [], bufferedBytes := 0 }
              parseLine format tail s (.finish .ended s)
        | chunk :: chunks =>
            match s.decoder.run chunk with
            | none => .finish .invalidUtf8 s
            | some (decoder, cs) =>
                .again
                  { s with
                    chunks := chunks
                    decoder := decoder
                    buffer := s.buffer ++ cs
                    bufferedBytes := s.bufferedBytes + chunk.length }

variable {text line : List Char}

theorem length_of_cutLine {rest : List Char} (h : cutLine text = some (line, rest)) :
  text = line ++ newline :: rest ∧ newline ∉ line
  := by
  induction text generalizing line with
  | nil => cases h
  | cons c cs ih =>
      rw [cutLine] at h
      by_cases hc : c = newline
      · rw [if_pos hc, Option.some.injEq, Prod.mk.injEq] at h
        obtain ⟨rfl, rfl⟩ := h
        rw [hc]
        exact ⟨rfl, List.not_mem_nil⟩
      · rw [if_neg hc, Option.map_eq_some_iff] at h
        obtain ⟨⟨line', rest'⟩, hcut, heq⟩ := h
        rw [Prod.mk.injEq] at heq
        obtain ⟨rfl, rfl⟩ := heq
        obtain ⟨hcs, hline⟩ := ih hcut
        rw [hcs]
        refine ⟨rfl, ?_⟩
        rintro (_ | ⟨_, hmem⟩)
        · exact hc rfl
        · exact hline hmem

theorem notMem_of_cutLine (h : cutLine text = none) :
  newline ∉ text
  := by
  induction text with
  | nil => exact List.not_mem_nil
  | cons c cs ih =>
      rw [cutLine] at h
      by_cases hc : c = newline
      · rw [if_pos hc] at h
        cases h
      · rw [if_neg hc, Option.map_eq_none_iff] at h
        rintro (_ | ⟨_, hmem⟩)
        · exact hc rfl
        · exact ih h hmem

variable {s : WatchStream}

/-- A turn after which the reader goes on shortens the buffer or takes a chunk. -/
theorem again_decreases {format : FrameFormat ε φ} {s' : WatchStream}
    (h : turn format s = .again s') :
  Prod.Lex (· < ·) (· < ·) (s'.chunks.length, s'.buffer.length) (s.chunks.length, s.buffer.length)
  := by
  rw [turn] at h
  cases hcut : cutLine s.buffer with
  | some cut =>
      obtain ⟨line, rest⟩ := cut
      rw [hcut] at h
      have hbuffer := congrArg List.length (length_of_cutLine hcut).1
      rw [List.length_append, List.length_cons] at hbuffer
      dsimp only at h
      by_cases hlimit : (utf8 (line ++ [newline])).length - 1 > MaximumWatchFrameBytes
      · rw [if_pos hlimit] at h
        cases h
      · rw [if_neg hlimit, parseLine] at h
        by_cases hblank : format.strip line = []
        · rw [if_pos hblank] at h
          cases h
          apply Prod.Lex.right
          dsimp only
          omega
        · rw [if_neg hblank] at h
          cases hparse : format.parseFrame (format.strip line) with
          | ok | error =>
              rw [hparse] at h
              cases h
  | none =>
      rw [hcut] at h
      dsimp only at h
      by_cases hlimit : s.bufferedBytes > MaximumWatchFrameBytes
      · rw [if_pos hlimit] at h
        cases h
      · rw [if_neg hlimit] at h
        cases hchunks : s.chunks with
        | nil =>
            rw [hchunks] at h
            dsimp only at h
            by_cases hneeded : s.decoder.needed ≠ 0
            · rw [if_pos hneeded] at h
              cases h
            · rw [if_neg hneeded, parseLine] at h
              by_cases hblank : format.strip s.buffer = []
              · rw [if_pos hblank] at h
                cases h
              · rw [if_neg hblank] at h
                cases hparse : format.parseFrame (format.strip s.buffer) with
                | ok | error =>
                    rw [hparse] at h
                    cases h
        | cons chunk chunks =>
            rw [hchunks] at h
            dsimp only at h
            cases hrun : s.decoder.run chunk with
            | none =>
                rw [hrun] at h
                cases h
            | some decoded =>
                rw [hrun] at h
                cases h
                apply Prod.Lex.left
                exact Nat.lt_succ_self _

/-- Read one frame. -/
def readFrame (format : FrameFormat ε φ) (s : WatchStream) :
    Except (StreamEnd ε) φ × WatchStream :=
  match h : turn format s with
  | .again s' => readFrame format s'
  | .frame f s' => (.ok f, s')
  | .finish e s' => (.error e, s')
termination_by (s.chunks.length, s.buffer.length)
decreasing_by exact again_decreases h

/-- The states that a reader comes to. -/
inductive Reaches (format : FrameFormat ε φ) (s : WatchStream) : WatchStream → Prop where
  | here : Reaches format s s
  | again {s' s'' : WatchStream} (h : Reaches format s s') (hturn : turn format s' = .again s'') :
      Reaches format s s''
  | frame {s' s'' : WatchStream} {f : φ} (h : Reaches format s s')
      (hturn : turn format s' = .frame f s'') : Reaches format s s''
  | finish {s' s'' : WatchStream} {e : StreamEnd ε} (h : Reaches format s s')
      (hturn : turn format s' = .finish e s'') : Reaches format s s''

/-! ### The frames of a text -/

/-- The lines of a text, and what follows the last newline. -/
def splitLines : List Char → List (List Char) × List Char
  | [] => ([], [])
  | c :: cs =>
      let split := splitLines cs
      if c = newline then ([] :: split.1, split.2)
      else
        match split.1 with
        | [] => ([], c :: split.2)
        | line :: rest => ((c :: line) :: rest, split.2)

/-- The frames of lines and of the text behind them. A line is refused exactly when it exceeds
the limit by itself; the end of a text is a line too, unless nothing of it is to be parsed. -/
def framesOf (format : FrameFormat ε φ) : List (List Char) → List Char → List φ × StreamEnd ε
  | [], tail =>
      if (utf8 tail).length > MaximumWatchFrameBytes then ([], .refused)
      else if format.strip tail = [] then ([], .ended)
      else
        match format.parseFrame (format.strip tail) with
        | .ok f => ([f], .ended)
        | .error e => ([], .failed e)
  | line :: rest, tail =>
      if (utf8 line).length > MaximumWatchFrameBytes then ([], .refused)
      else if format.strip line = [] then framesOf format rest tail
      else
        match format.parseFrame (format.strip line) with
        | .ok f => (f :: (framesOf format rest tail).1, (framesOf format rest tail).2)
        | .error e => ([], .failed e)

/-- The frames of a text. -/
def frames (format : FrameFormat ε φ) (text : List Char) : List φ × StreamEnd ε :=
  framesOf format (splitLines text).1 (splitLines text).2

/-- The first line of a text, or all of it when it has no newline. -/
def firstPiece (text : List Char) : List Char := text.takeWhile (· ≠ newline)

theorem splitLines_line (h : newline ∉ line) (rest : List Char) :
  splitLines (line ++ newline :: rest) = (line :: (splitLines rest).1, (splitLines rest).2)
  := by
  induction line with
  | nil =>
      rw [List.nil_append, splitLines, if_pos rfl]
  | cons c line ih =>
      rw [List.mem_cons, not_or] at h
      rw [List.cons_append, splitLines, ih h.2]
      dsimp only
      rw [if_neg (Ne.symm h.1)]

theorem splitLines_tail {tail : List Char} (h : newline ∉ tail) :
  splitLines tail = ([], tail)
  := by
  induction tail with
  | nil => rfl
  | cons c tail ih =>
      rw [List.mem_cons, not_or] at h
      rw [splitLines, ih h.2]
      dsimp only
      rw [if_neg (Ne.symm h.1)]

theorem firstPiece_newline (text : List Char) :
  firstPiece (newline :: text) = []
  := List.takeWhile_cons_of_neg (by simp)

theorem firstPiece_cons {c : Char} (h : c ≠ newline) (text : List Char) :
  firstPiece (c :: text) = c :: firstPiece text
  := List.takeWhile_cons_of_pos (by simpa using h)

/-- A text is a line, a newline and a rest, or has no newline. -/
theorem text_cases (text : List Char) :
  (∃ rest, text = firstPiece text ++ newline :: rest) ∨ text = firstPiece text
  := by
  induction text with
  | nil => exact .inr rfl
  | cons c text ih =>
      by_cases hc : c = newline
      · rw [hc, firstPiece_newline]
        exact .inl ⟨text, rfl⟩
      · rw [firstPiece_cons hc]
        obtain ⟨rest, htext⟩ | htext := ih
        · exact .inl ⟨rest, congrArg (c :: ·) htext⟩
        · exact .inr (congrArg (c :: ·) htext)

theorem notMem_firstPiece (text : List Char) :
  newline ∉ firstPiece text
  := by
  intro hmem
  have hall := List.all_eq_true.mp (List.all_takeWhile (p := (· ≠ newline)) (l := text)) _ hmem
  simp at hall

/-- A text whose first piece exceeds the limit has no frame. -/
theorem frames_refused (format : FrameFormat ε φ)
    (h : (utf8 (firstPiece text)).length > MaximumWatchFrameBytes) :
  frames format text = ([], .refused)
  := by
  have hpiece := notMem_firstPiece text
  obtain ⟨rest, htext⟩ | htext := text_cases text
  · rw [frames, htext, splitLines_line hpiece, framesOf, if_pos h]
  · rw [frames, htext, splitLines_tail hpiece, framesOf, if_pos h]

/-! ### What a reader holds -/

/-- The reader has the text still before it: the buffer, and the characters of the bytes that
were not decoded and of the chunks that were not received. The counter is the number of the
bytes of the buffer and of those that were received and not decoded. -/
structure Holds (s : WatchStream) (text : List Char) (part : List UInt8) (es : List Char) :
    Prop where
  text_eq : text = s.buffer ++ es
  bytes_eq : part ++ s.chunks.flatten = utf8 es
  decoder_eq : Utf8Decoder.run .start part = some (s.decoder, [])
  counter_eq : s.bufferedBytes = (utf8 s.buffer).length + part.length

variable {part : List UInt8} {es : List Char}

/-- The part of a character that was received is shorter than the character. -/
theorem part_lt {d : Utf8Decoder} {rest : List UInt8} (hbytes : part ++ rest = utf8 es)
    (hrun : Utf8Decoder.run .start part = some (d, [])) (hne : part ≠ []) :
  ∃ c es', es = c :: es' ∧ part.length < (String.utf8EncodeChar c).length
  := by
  cases es with
  | nil =>
      rw [utf8_nil, List.append_eq_nil_iff] at hbytes
      exact absurd hbytes.1 hne
  | cons c es' =>
      refine ⟨c, es', rfl, ?_⟩
      by_contra hlong
      rw [utf8_cons] at hbytes
      obtain ⟨left, hchar, -⟩ | ⟨more, hpart, -⟩ := List.append_eq_append_iff.mp hbytes
      · rw [hchar, List.length_append] at hlong
        have hleft : left = [] := List.length_eq_zero_iff.mp (by omega)
        rw [hleft, List.append_nil] at hchar
        rw [← hchar, Utf8Decoder.run_utf8EncodeChar] at hrun
        cases hrun
      · rw [hpart, Utf8Decoder.run_append_of_eq (Utf8Decoder.run_utf8EncodeChar c),
          Option.map_eq_some_iff] at hrun
        obtain ⟨_, -, heq⟩ := hrun
        cases heq

theorem length_utf8_newline :
  (utf8 [newline]).length = 1
  := by decide

/-- The bytes that were received of a line are not more than the line has. -/
theorem Holds.counter_le (h : Holds s text part es) (hbuffer : newline ∉ s.buffer) :
  s.bufferedBytes ≤ (utf8 (firstPiece text)).length
  := by
  have hfirst : firstPiece text = s.buffer ++ firstPiece es := by
    rw [h.text_eq]
    apply List.takeWhile_append_of_pos
    intro c hc
    rw [decide_eq_true_eq]
    rintro rfl
    exact hbuffer hc
  rw [h.counter_eq, hfirst, utf8_append, List.length_append]
  by_cases hne : part = []
  · rw [hne, List.length_nil]
    omega
  · obtain ⟨c, es', rfl, hlt⟩ := part_lt h.bytes_eq h.decoder_eq hne
    have hpos : 0 < part.length := List.length_pos_iff.mpr hne
    have hc : c ≠ newline := by
      rintro rfl
      have hone : (String.utf8EncodeChar newline).length = 1 := length_utf8_newline
      omega
    rw [firstPiece_cons hc, utf8_cons, List.length_append]
    omega

/-- The reader holds a text that is left of another one. -/
def Left (s : WatchStream) (text text' : List Char) : Prop :=
  (∃ part es, Holds s text' part es) ∧ text' <:+ text

/-- What is read by a turn are the frames of the text that was left before it. -/
def Turn.Reading (format : FrameFormat ε φ) (text : List Char) : Turn ε φ → Prop
  | .again s => ∃ text', Left s text text' ∧ frames format text = frames format text'
  | .frame f s => ∃ text', Left s text text' ∧
      frames format text = (f :: (frames format text').1, (frames format text').2)
  | .finish e s => ∃ text', Left s text text' ∧ frames format text = ([], e)

/-- The text is at its end. -/
theorem frames_nil (format : FrameFormat ε φ) :
  frames format [] = ([], .ended)
  := by
  have hlimit : ¬ (utf8 []).length > MaximumWatchFrameBytes := by decide
  rw [frames, splitLines, framesOf, if_neg hlimit, if_pos format.strip_nil]

/-- A line that does not exceed the limit is read. -/
theorem reading_line (format : FrameFormat ε φ) {rest : List Char} (hline : newline ∉ line)
    (htext : text = line ++ newline :: rest)
    (hlimit : ¬ (utf8 line).length > MaximumWatchFrameBytes) (hleft : Left s text rest) :
  (parseLine format line s (.again s)).Reading format text
  := by
  have hframes : frames format text = framesOf format (line :: (splitLines rest).1)
      (splitLines rest).2 := by rw [frames, htext, splitLines_line hline]
  rw [framesOf, if_neg hlimit] at hframes
  rw [parseLine]
  by_cases hblank : format.strip line = []
  · rw [if_pos hblank] at hframes ⊢
    exact ⟨rest, hleft, hframes⟩
  · rw [if_neg hblank] at hframes ⊢
    cases hparse : format.parseFrame (format.strip line) with
    | ok | error =>
        rw [hparse] at hframes
        exact ⟨rest, hleft, hframes⟩

/-- The end of the text is read as a line. -/
theorem reading_tail (format : FrameFormat ε φ) (hline : newline ∉ text)
    (hlimit : ¬ (utf8 text).length > MaximumWatchFrameBytes) (hleft : Left s text []) :
  (parseLine format text s (.finish .ended s)).Reading format text
  := by
  have hframes : frames format text = framesOf format [] text := by
    rw [frames, splitLines_tail hline]
  rw [framesOf, if_neg hlimit] at hframes
  rw [parseLine]
  by_cases hblank : format.strip text = []
  · rw [if_pos hblank] at hframes ⊢
    exact ⟨[], hleft, hframes⟩
  · rw [if_neg hblank] at hframes ⊢
    cases hparse : format.parseFrame (format.strip text) with
    | ok f =>
        rw [hparse] at hframes
        refine ⟨[], hleft, ?_⟩
        rw [frames_nil]
        exact hframes
    | error e =>
        rw [hparse] at hframes
        exact ⟨[], hleft, hframes⟩

/-- A turn reads what the text says. -/
theorem turn_reading (format : FrameFormat ε φ) (h : Holds s text part es) :
  (turn format s).Reading format text
  := by
  have hstay : Left s text text := ⟨⟨part, es, h⟩, List.suffix_refl text⟩
  rw [turn]
  cases hcut : cutLine s.buffer with
  | some cut =>
      obtain ⟨line, rest⟩ := cut
      obtain ⟨hbuffer, hline⟩ := length_of_cutLine hcut
      have htext : text = line ++ newline :: (rest ++ es) := by
        rw [h.text_eq, hbuffer, List.append_assoc, List.cons_append]
      have hlength : (utf8 (line ++ [newline])).length = (utf8 line).length + 1 := by
        rw [utf8_append, List.length_append, length_utf8_newline]
      dsimp only
      rw [hlength, Nat.add_sub_cancel]
      by_cases hlimit : (utf8 line).length > MaximumWatchFrameBytes
      · rw [if_pos hlimit]
        refine ⟨text, hstay, ?_⟩
        rw [frames, htext, splitLines_line hline, framesOf, if_pos hlimit]
      · rw [if_neg hlimit]
        apply reading_line format hline htext hlimit
        refine ⟨⟨part, es, rfl, h.bytes_eq, h.decoder_eq, ?_⟩, ?_⟩
        · dsimp only
          rw [h.counter_eq, hbuffer, utf8_append, utf8_cons, List.length_append,
            List.length_append]
          have hone : (String.utf8EncodeChar newline).length = 1 := length_utf8_newline
          rw [hone]
          push_cast
          ring
        · rw [htext]
          exact ⟨line ++ [newline], by simp⟩
  | none =>
      have hbuffer := notMem_of_cutLine hcut
      have hcounter := h.counter_le hbuffer
      dsimp only
      by_cases hlimit : s.bufferedBytes > MaximumWatchFrameBytes
      · rw [if_pos hlimit]
        refine ⟨text, hstay, frames_refused format ?_⟩
        omega
      · rw [if_neg hlimit]
        cases hchunks : s.chunks with
        | nil =>
            -- The bytes that are left are those of whole characters, and none is decoded of them.
            have hbytes := h.bytes_eq
            have hdecoder := h.decoder_eq
            rw [hchunks, List.flatten_nil, List.append_nil] at hbytes
            rw [hbytes, Utf8Decoder.run_utf8, Option.some.injEq, Prod.mk.injEq] at hdecoder
            obtain ⟨hstart, rfl⟩ := hdecoder
            have htext : text = s.buffer := by rw [h.text_eq, List.append_nil]
            have hneeded : ¬ s.decoder.needed ≠ 0 := by
              rw [← hstart]
              exact not_not_intro rfl
            dsimp only
            rw [if_neg hneeded, ← htext]
            apply reading_tail format (by rw [htext]; exact hbuffer)
            · have hcount := h.counter_eq
              rw [← htext] at hcount
              omega
            · refine ⟨⟨[], [], rfl, rfl, ?_, rfl⟩, List.nil_suffix⟩
              rw [← hstart]
              rfl
        | cons chunk chunks =>
            have hbytes := h.bytes_eq
            rw [hchunks, List.flatten_cons, ← List.append_assoc] at hbytes
            obtain ⟨ds, es', part', d, hes, hpart, hrest, hrun, hrun'⟩ :=
              Utf8Decoder.run_beginning hbytes
            rw [Utf8Decoder.run_append_of_eq h.decoder_eq, Option.map_eq_some_iff] at hrun
            obtain ⟨decoded, hchunk, heq⟩ := hrun
            rw [List.nil_append, Prod.mk.injEq] at heq
            obtain ⟨hd, hds⟩ := heq
            have hchunk' : s.decoder.run chunk = some (d, ds) := by
              rw [hchunk, ← hd, ← hds]
            dsimp only
            rw [hchunk']
            refine ⟨text, ⟨⟨part', es', ?_, hrest, hrun', ?_⟩, List.suffix_refl text⟩, rfl⟩
            · dsimp only
              rw [h.text_eq, hes, List.append_assoc]
            · have hlength := congrArg List.length hpart
              rw [List.length_append, List.length_append] at hlength
              dsimp only
              rw [h.counter_eq, utf8_append, List.length_append]
              omega

/-! ### What is read -/

/-- A frame is read as the text says, or the end of the frames. -/
theorem readFrame_reading (format : FrameFormat ε φ) (h : Holds s text part es) :
  (∃ f s' text', readFrame format s = (.ok f, s') ∧ (∃ part es, Holds s' text' part es) ∧
    frames format text = (f :: (frames format text').1, (frames format text').2)) ∨
  ∃ e s', readFrame format s = (.error e, s') ∧ frames format text = ([], e)
  := by
  induction s using readFrame.induct format generalizing text part es with
  | case1 s s' hturn ih =>
      have hreading := turn_reading format h
      rw [hturn] at hreading
      obtain ⟨text', ⟨⟨part', es', h'⟩, -⟩, hframes⟩ := hreading
      rw [readFrame, hturn, hframes]
      exact ih h'
  | case2 s f s' hturn =>
      have hreading := turn_reading format h
      rw [hturn] at hreading
      obtain ⟨text', ⟨hleft, -⟩, hframes⟩ := hreading
      left
      refine ⟨f, s', text', ?_, hleft, hframes⟩
      rw [readFrame, hturn]
  | case3 s e s' hturn =>
      have hreading := turn_reading format h
      rw [hturn] at hreading
      obtain ⟨text', -, hframes⟩ := hreading
      right
      refine ⟨e, s', ?_, hframes⟩
      rw [readFrame, hturn]

/-- The frames are read one after the other. -/
theorem reads_frames (format : FrameFormat ε φ) (h : Holds s text part es) :
  Reads (readFrame format) s (frames format text)
  := by
  generalize hfs : (frames format text).1 = fs
  induction fs generalizing s text part es with
  | nil =>
      obtain ⟨f, s', text', -, -, hframes⟩ | ⟨e, s', hread, hframes⟩ := readFrame_reading format h
      · rw [hframes] at hfs
        cases hfs
      · rw [hframes]
        exact .finish hread
  | cons f fs ih =>
      obtain ⟨f', s', text', hread, ⟨part', es', h'⟩, hframes⟩ | ⟨e, s', -, hframes⟩ :=
        readFrame_reading format h
      · rw [hframes, List.cons.injEq] at hfs
        rw [hframes]
        exact .frame hread (ih h' hfs.2)
      · rw [hframes] at hfs
        cases hfs

end WatchStream

/-- What is read is determined. -/
theorem Reads.unique {σ ε φ : Type} {read : σ → Except ε φ × σ} {s : σ} {r r' : List φ × ε}
    (h : Reads read s r) (h' : Reads read s r') :
  r = r'
  := by
  induction h generalizing r' with
  | frame hread hrest ih =>
      cases h' with
      | frame hread' hrest' =>
          rw [hread, Prod.mk.injEq, Except.ok.injEq] at hread'
          obtain ⟨rfl, rfl⟩ := hread'
          cases ih hrest'
          rfl
      | finish hread' =>
          rw [hread] at hread'
          cases hread'
  | finish hread =>
      cases h' with
      | frame hread' hrest' =>
          rw [hread] at hread'
          cases hread'
      | finish hread' =>
          rw [hread, Prod.mk.injEq, Except.error.injEq] at hread'
          rw [hread'.1]

namespace WatchStream

variable {ε φ : Type}

variable {text : List Char}

theorem holds_start {chunks : List (List UInt8)} (h : chunks.flatten = utf8 text) :
  Holds (start chunks) text [] text
  := ⟨rfl, h, rfl, rfl⟩

/-- In every state the reader holds what is left of the text. -/
theorem Reaches.left {format : FrameFormat ε φ} {s s' : WatchStream} (h : Reaches format s s')
    (hs : ∃ part es, Holds s text part es) :
  ∃ text', Left s' text text'
  := by
  have hgo : ∀ {s s' : WatchStream} {text text' : List Char}, Left s text text' →
      (∃ text'', Left s' text' text'') → ∃ text'', Left s' text text'' := by
    rintro s s' text text' ⟨-, hsuffix⟩ ⟨text'', hholds, hsuffix'⟩
    exact ⟨text'', hholds, hsuffix'.trans hsuffix⟩
  induction h with
  | here => exact ⟨text, hs, List.suffix_refl text⟩
  | again _ hturn ih | frame _ hturn ih | finish _ hturn ih =>
      obtain ⟨text', hleft⟩ := ih
      obtain ⟨part, es, h'⟩ := hleft.1
      have hreading := turn_reading format h'
      rw [hturn] at hreading
      obtain ⟨text'', hleft', -⟩ := hreading
      exact hgo hleft ⟨text'', hleft'⟩

/-- The counter is the number of the bytes that were received and not consumed. -/
def Counts (s : WatchStream) (body : List UInt8) : Prop :=
  ∃ consumed part, body = consumed ++ (utf8 s.buffer ++ part) ++ s.chunks.flatten ∧
    Utf8Decoder.run .start part = some (s.decoder, []) ∧
    s.bufferedBytes = (utf8 s.buffer ++ part).length

/-- The counter is right in every state. -/
theorem Reaches.counts {format : FrameFormat ε φ} {chunks : List (List UInt8)} {s : WatchStream}
    (h : Reaches format (start chunks) s) (hbody : chunks.flatten = utf8 text) :
  s.Counts (utf8 text)
  := by
  obtain ⟨text', ⟨part, es, hholds⟩, consumed, htext⟩ := h.left ⟨[], text, holds_start hbody⟩
  refine ⟨utf8 consumed, part, ?_, hholds.decoder_eq, ?_⟩
  · rw [← htext, utf8_append, hholds.text_eq, utf8_append, ← hholds.bytes_eq]
    simp only [List.append_assoc]
  · rw [hholds.counter_eq, List.length_append]
    push_cast
    rfl

end WatchStream

end Registry
