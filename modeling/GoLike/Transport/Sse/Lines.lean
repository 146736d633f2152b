import GoLike.Transport.Sse.LineParser

/-!
# Lines do not depend on chunks

The lines of a sequence of bytes are found one byte at a time, from the line that has begun and
whether the last line has ended with a carriage return. The line parser reports these lines,
however the bytes are cut into chunks, and refuses the same line.
-/

namespace Transport.Sse

variable {maxBufferSize : Option ℕ}

/-! ### The lines of a sequence of bytes -/

/-- The position of the first colon, or `-1`. -/
def colonIndex (line : Bytes) : ℤ := if colon ∈ line then line.idxOf colon else -1

/-- A complete line with the length of its field. -/
def lineOf (line : Bytes) : Line :=
  (line, if colonIndex line = -1 ∧ line ≠ [] then line.length else colonIndex line)

/-- The byte ends a line. -/
def isEnd (b : UInt8) : Prop := b = carriageReturn ∨ b = newline

instance : DecidablePred isEnd := fun b => inferInstanceAs (Decidable (b = carriageReturn ∨ b = newline))

/-- How far the lines have got. -/
inductive Pending where
  /-- A line has begun, which may be empty. -/
  | begun (line : Bytes)
  /-- A line has ended with a carriage return. -/
  | returned
  deriving DecidableEq

/-- The line that has begun. -/
def Pending.line : Pending → Bytes
  | .begun line => line
  | .returned => []

def Pending.afterReturn : Pending → Bool
  | .begun _ => false
  | .returned => true

/-- After the end of a line. -/
def Pending.after (e : UInt8) : Pending := if e = carriageReturn then .returned else .begun []

/-- The lines of bytes after a line that has begun. -/
def splitLines (maxBufferSize : Option ℕ) (p : Pending) :
    Bytes → List Line × Except ParserError Pending
  | [] => ([], .ok p)
  | b :: bytes =>
      if p = .returned ∧ b = newline then splitLines maxBufferSize (.begun []) bytes
      else if isEnd b then
        if exceeds maxBufferSize p.line.length then ([], .error .limit)
        else
          let rest := splitLines maxBufferSize (.after b) bytes
          (lineOf p.line :: rest.1, rest.2)
      else splitLines maxBufferSize (.begun (p.line ++ [b])) bytes

/-- The line that has begun must not be too long. -/
def checkPending (maxBufferSize : Option ℕ) (p : Pending) : Except ParserError Pending :=
  if exceeds maxBufferSize p.line.length then .error .limit else .ok p

/-- The lines of bytes, and the line that is left. -/
def linesOf (maxBufferSize : Option ℕ) (p : Pending) (bytes : Bytes) :
    List Line × Except ParserError Pending :=
  let split := splitLines maxBufferSize p bytes
  (split.1, split.2.bind (checkPending maxBufferSize))

/-! ### Searching for the end of a line -/

theorem colonIndex_append (line more : Bytes) :
  colonIndex (line ++ more) =
    if colon ∈ line then colonIndex line
    else if colon ∈ more then (line.length + more.idxOf colon : ℕ) else -1
  := by
  simp only [colonIndex, List.mem_append, List.idxOf_append]
  by_cases hline : colon ∈ line
  · rw [if_pos (.inl hline), if_pos hline, if_pos hline, if_pos hline]
  · rw [if_neg hline, if_neg hline]
    by_cases hmore : colon ∈ more
    · rw [if_pos (.inr hmore), if_pos hmore, Nat.add_comm]
    · rw [if_neg (not_or.mpr ⟨hline, hmore⟩), if_neg hmore]

theorem colonIndex_eq_neg_one {line : Bytes} :
  colonIndex line = -1 ↔ colon ∉ line
  := by
  rw [colonIndex]
  split
  · rename_i hcolon
    constructor
    · intro h
      omega
    · exact fun h => absurd hcolon h
  · rename_i hcolon
    exact ⟨fun _ => hcolon, fun _ => rfl⟩

/-- A colon is noted if it is the first one. -/
theorem colonIndex_colon (line : Bytes) :
  colonIndex (line ++ [colon]) = if colonIndex line = -1 then (line.length : ℤ) else colonIndex line
  := by
  rw [colonIndex_append]
  by_cases hline : colon ∈ line
  · rw [if_pos hline, if_neg (by simpa [colonIndex_eq_neg_one] using hline)]
  · rw [if_neg hline, if_pos (by simp), if_pos (colonIndex_eq_neg_one.mpr hline)]
    simp

variable {b : UInt8}

theorem colonIndex_other (h : b ≠ colon) (line : Bytes) :
  colonIndex (line ++ [b]) = colonIndex line
  := by
  rw [colonIndex_append]
  by_cases hline : colon ∈ line
  · rw [if_pos hline]
  · rw [if_neg hline, if_neg (by simpa using h.symm), colonIndex_eq_neg_one.mpr hline]

/-- One byte of the search. -/
theorem scanLine_cons (lineStart : ℕ) (line : Bytes) (hb : ¬ isEnd b) (rest : Bytes) :
  scanLine lineStart (b :: rest) (lineStart + line.length) (colonIndex line) =
    scanLine lineStart rest (lineStart + (line ++ [b]).length) (colonIndex (line ++ [b]))
  := by
  rw [scanLine, List.length_append, List.length_singleton]
  split
  · rename_i hcolon
    have helapsed : ((lineStart + line.length : ℕ) : ℤ) - lineStart = line.length := by omega
    rw [hcolon, colonIndex_colon, helapsed]
    rfl
  · rename_i hcolon
    rw [if_neg (fun h => hb (.inl h)), if_neg (fun h => hb (.inr h)), colonIndex_other hcolon]
    rfl

/-- The bytes do not end the line. -/
theorem scanLine_open (lineStart : ℕ) (line : Bytes) {more : Bytes} (hmore : ∀ b ∈ more, ¬ isEnd b)
    (rest : Bytes) :
  scanLine lineStart (more ++ rest) (lineStart + line.length) (colonIndex line) =
    scanLine lineStart rest (lineStart + (line ++ more).length) (colonIndex (line ++ more))
  := by
  induction more generalizing line with
  | nil => rw [List.nil_append, List.append_nil]
  | cons b more ih =>
      rw [List.cons_append, scanLine_cons lineStart line (hmore b List.mem_cons_self),
        ih (line ++ [b]) (fun b' hb' => hmore b' (List.mem_cons_of_mem b hb')), List.append_assoc,
        List.singleton_append]

variable {e : UInt8}

/-- The byte that ends the line is found. -/
theorem scanLine_end {lineStart position : ℕ} {fieldLength : ℤ} (he : isEnd e) (rest : Bytes) :
  scanLine lineStart (e :: rest) position fieldLength =
    ⟨some position, position + 1, fieldLength, e = carriageReturn⟩
  := by
  obtain rfl | rfl := he
  · rfl
  · rfl

variable (maxBufferSize) in
theorem splitLines_open (line : Bytes) {more : Bytes} (hmore : ∀ b ∈ more, ¬ isEnd b)
    (rest : Bytes) :
  splitLines maxBufferSize (.begun line) (more ++ rest) =
    splitLines maxBufferSize (.begun (line ++ more)) rest
  := by
  induction more generalizing line with
  | nil => rw [List.nil_append, List.append_nil]
  | cons b more ih =>
      rw [List.cons_append, splitLines, if_neg (by simp), if_neg (hmore b List.mem_cons_self),
        Pending.line, ih (line ++ [b]) (fun b' hb' => hmore b' (List.mem_cons_of_mem b hb')),
        List.append_assoc, List.singleton_append]

/-- Bytes end a line, or do not. -/
theorem exists_end (bytes : Bytes) :
  (∀ b ∈ bytes, ¬ isEnd b) ∨
    ∃ more e rest, bytes = more ++ e :: rest ∧ (∀ b ∈ more, ¬ isEnd b) ∧ isEnd e
  := by
  induction bytes with
  | nil => exact .inl fun b hb => absurd hb List.not_mem_nil
  | cons b bytes ih =>
      by_cases hb : isEnd b
      · exact .inr ⟨[], b, bytes, rfl, fun b' hb' => absurd hb' List.not_mem_nil, hb⟩
      · obtain hnone | ⟨more, e, rest, rfl, hmore, he⟩ := ih
        · left
          intro b' hb'
          obtain rfl | hb' := List.mem_cons.mp hb'
          · exact hb
          · exact hnone b' hb'
        · refine .inr ⟨b :: more, e, rest, rfl, ?_, he⟩
          intro b' hb'
          obtain rfl | hb' := List.mem_cons.mp hb'
          · exact hb
          · exact hmore b' hb'

/-! ### The loop over the lines of a buffer -/

variable {buffer : Bytes} {c : Cursor}

theorem parseLines_done (h : buffer.length ≤ c.position) :
  parseLines maxBufferSize buffer c = ([], .ok c)
  := by
  rw [parseLines, if_neg (Nat.not_lt.mpr h)]

/-- The search for the end of the next line. -/
def nextScan (buffer : Bytes) (d : Cursor) : Scan :=
  scanLine d.lineStart (buffer.drop d.position) d.position d.fieldLength

theorem parseLines_none {d : Cursor} (h : c.position < buffer.length)
    (hd : discardNewline buffer c = d) (hnone : (nextScan buffer d).lineEnd = none) :
  parseLines maxBufferSize buffer c =
    ([], .ok { d with
      position := (nextScan buffer d).position
      fieldLength := (nextScan buffer d).fieldLength })
  := by
  subst hd
  rw [parseLines, if_pos h]
  dsimp only
  split
  · rfl
  · rename_i hsome
    exact absurd (hnone.symm.trans hsome) (by rintro ⟨⟩)

theorem parseLines_some {d : Cursor} {lineEnd : ℕ} (h : c.position < buffer.length)
    (hd : discardNewline buffer c = d) (hsome : (nextScan buffer d).lineEnd = some lineEnd) :
  parseLines maxBufferSize buffer c =
    if exceeds maxBufferSize (lineEnd - d.lineStart) then ([], .error .limit)
    else
      let others := parseLines maxBufferSize buffer
        ⟨(nextScan buffer d).position, (nextScan buffer d).position, -1,
          (nextScan buffer d).discardTrailingNewline⟩
      ((buffer.extract d.lineStart lineEnd,
        if (nextScan buffer d).fieldLength = -1 ∧ d.lineStart < lineEnd then
          (lineEnd : ℤ) - d.lineStart
        else (nextScan buffer d).fieldLength) :: others.1, others.2)
  := by
  subst hd
  rw [parseLines, if_pos h]
  dsimp only
  split
  · rename_i hnone
    exact absurd (hsome.symm.trans hnone) (by rintro ⟨⟩)
  · rename_i lineEnd' hsome'
    obtain rfl : lineEnd = lineEnd' := Option.some.inj (hsome.symm.trans hsome')
    rfl

theorem discardNewline_newline (h : c.discardTrailingNewline = true)
    (hnewline : buffer[c.position]? = some newline) :
  discardNewline buffer c = ⟨c.position + 1, c.position + 1, c.fieldLength, false⟩
  := by
  rw [discardNewline, if_pos h, if_pos hnewline]

theorem discardNewline_other (h : c.discardTrailingNewline = true)
    (hother : buffer[c.position]? ≠ some newline) :
  discardNewline buffer c = { c with discardTrailingNewline := false }
  := by
  rw [discardNewline, if_pos h, if_neg hother]

theorem discardNewline_discardNewline (buffer : Bytes) (c : Cursor) :
  discardNewline buffer (discardNewline buffer c) = discardNewline buffer c
  := by
  rw [discardNewline, discardNewline]
  split
  · split
    · rfl
    · rfl
  · rfl

/-- A line feed that has to be discarded can be discarded before. -/
theorem parseLines_discard (h : c.position < buffer.length) :
  parseLines maxBufferSize buffer c = parseLines maxBufferSize buffer (discardNewline buffer c)
  := by
  by_cases hleft : (discardNewline buffer c).position < buffer.length
  · have hd := discardNewline_discardNewline buffer c
    match hend : (nextScan buffer (discardNewline buffer c)).lineEnd with
    | none => rw [parseLines_none h rfl hend, parseLines_none hleft hd hend]
    | some lineEnd => rw [parseLines_some h rfl hend, parseLines_some hleft hd hend]
  · have hdrop : buffer.drop (discardNewline buffer c).position = [] :=
      List.drop_eq_nil_of_le (Nat.not_lt.mp hleft)
    have hscan : nextScan buffer (discardNewline buffer c) =
        ⟨none, (discardNewline buffer c).position, (discardNewline buffer c).fieldLength,
          false⟩ := by
      rw [nextScan, hdrop, scanLine]
    rw [parseLines_done (Nat.not_lt.mp hleft), parseLines_none h rfl (by rw [hscan]), hscan]

/-- Where a line that has begun stands in a buffer. -/
def Pending.cursor (start : ℕ) (p : Pending) : Cursor :=
  ⟨start, start + p.line.length, colonIndex p.line, p.afterReturn⟩

theorem discardNewline_begun (buffer : Bytes) (start : ℕ) (line : Bytes) :
  discardNewline buffer (Pending.cursor start (.begun line)) = Pending.cursor start (.begun line)
  := rfl

theorem nextScan_cursor (before line rest : Bytes) :
  nextScan (before ++ line ++ rest) (Pending.cursor before.length (.begun line)) =
    scanLine before.length rest (before.length + line.length) (colonIndex line)
  := by
  rw [nextScan, Pending.cursor, Pending.line, ← List.length_append, List.drop_left]

/-- The line that has begun does not end. -/
theorem parseLines_open (before line : Bytes) {rest : Bytes} (hrest : ∀ b ∈ rest, ¬ isEnd b) :
  parseLines maxBufferSize (before ++ line ++ rest) (Pending.cursor before.length (.begun line)) =
    ([], .ok (Pending.cursor before.length (.begun (line ++ rest))))
  := by
  match rest with
  | [] =>
      rw [List.append_nil, List.append_nil]
      exact parseLines_done (List.length_append.le)
  | b :: rest =>
      have hscan : nextScan (before ++ line ++ (b :: rest))
          (Pending.cursor before.length (.begun line)) =
            ⟨none, before.length + (line ++ (b :: rest)).length, colonIndex (line ++ (b :: rest)),
              false⟩ := by
        rw [nextScan_cursor, ← List.append_nil (b :: rest), scanLine_open _ _ hrest,
          List.append_nil, scanLine]
      have hposition : (Pending.cursor before.length (.begun line)).position <
          (before ++ line ++ (b :: rest)).length := by
        simp only [Pending.cursor, Pending.line, List.length_append, List.length_cons]
        omega
      rw [parseLines_none hposition (discardNewline_begun _ _ _) (by rw [hscan]), hscan]
      rfl

/-- The bytes of a line between the lines before it and the bytes after it. -/
theorem extract_line (before line rest : Bytes) :
  (before ++ line ++ rest).extract before.length (before.length + line.length) = line
  := by
  rw [List.extract_eq_take_drop, List.append_assoc, List.drop_left, Nat.add_sub_cancel_left,
    List.take_left]

/-- The line that has begun ends. -/
theorem parseLines_end (before line more : Bytes) (rest : Bytes) (hmore : ∀ b ∈ more, ¬ isEnd b)
    (he : isEnd e) :
  parseLines maxBufferSize (before ++ line ++ (more ++ e :: rest))
    (Pending.cursor before.length (.begun line)) =
      if exceeds maxBufferSize (line ++ more).length then ([], .error .limit)
      else
        let others := parseLines maxBufferSize (before ++ line ++ (more ++ e :: rest))
          (Pending.cursor (before.length + (line ++ more).length + 1) (.after e))
        (lineOf (line ++ more) :: others.1, others.2)
  := by
  have hscan : nextScan (before ++ line ++ (more ++ e :: rest))
      (Pending.cursor before.length (.begun line)) =
        ⟨some (before.length + (line ++ more).length), before.length + (line ++ more).length + 1,
          colonIndex (line ++ more), e = carriageReturn⟩ := by
    rw [nextScan_cursor, scanLine_open _ _ hmore, scanLine_end he]
  have hextract : (before ++ line ++ (more ++ e :: rest)).extract before.length
      (before.length + (line ++ more).length) = line ++ more := by
    have hbytes : before ++ line ++ (more ++ e :: rest) =
        before ++ (line ++ more) ++ e :: rest := by
      simp only [List.append_assoc]
    rw [hbytes, extract_line]
  have hfield : (if colonIndex (line ++ more) = -1 ∧
      before.length < before.length + (line ++ more).length then
        ((before.length + (line ++ more).length : ℕ) : ℤ) - before.length
      else colonIndex (line ++ more)) = (lineOf (line ++ more)).2 := by
    have hlength : ((before.length + (line ++ more).length : ℕ) : ℤ) - before.length =
        (line ++ more).length := by
      omega
    simp only [lineOf, Nat.lt_add_right_iff_pos, List.length_pos_iff, hlength]
  have hnext : (⟨before.length + (line ++ more).length + 1,
      before.length + (line ++ more).length + 1, -1, e = carriageReturn⟩ : Cursor) =
        Pending.cursor (before.length + (line ++ more).length + 1) (.after e) := by
    obtain rfl | rfl := he
    · rfl
    · rfl
  have hposition : (Pending.cursor before.length (.begun line)).position <
      (before ++ line ++ (more ++ e :: rest)).length := by
    simp only [Pending.cursor, Pending.line, List.length_append, List.length_cons]
    omega
  rw [parseLines_some hposition (discardNewline_begun _ _ _) (by rw [hscan])]
  simp only [hscan, hnext]
  simp only [Pending.cursor, Nat.add_sub_cancel_left, hextract]
  split
  · rfl
  · apply congrArg₂
    · exact congrArg₂ List.cons (Prod.ext rfl hfield) rfl
    · rfl

theorem splitLines_end (line more : Bytes) (rest : Bytes) (hmore : ∀ b ∈ more, ¬ isEnd b)
    (he : isEnd e) :
  splitLines maxBufferSize (.begun line) (more ++ e :: rest) =
    if exceeds maxBufferSize (line ++ more).length then ([], .error .limit)
    else
      let others := splitLines maxBufferSize (.after e) rest
      (lineOf (line ++ more) :: others.1, others.2)
  := by
  rw [splitLines_open maxBufferSize line hmore, splitLines, if_neg (by simp), if_pos he]
  rfl

/-- The loop over the lines of a buffer reports the lines of its bytes. -/
def Reports (parsed : List Line × Except ParserError Cursor) (buffer : Bytes)
    (split : List Line × Except ParserError Pending) : Prop :=
  parsed.1 = split.1 ∧
    ((∃ e, parsed.2 = .error e ∧ split.2 = .error e) ∨
      ∃ before p, buffer = before ++ p.line ∧ parsed.2 = .ok (p.cursor before.length) ∧
        split.2 = .ok p)

theorem parseLines_returned_newline (before rest : Bytes) :
  parseLines maxBufferSize (before ++ newline :: rest) (Pending.cursor before.length .returned) =
    parseLines maxBufferSize ((before ++ [newline]) ++ rest)
      (Pending.cursor (before ++ [newline]).length (.begun []))
  := by
  have hposition : (Pending.cursor before.length .returned).position <
      (before ++ newline :: rest).length := by
    simp [Pending.cursor, Pending.line]
  have hdiscard : discardNewline (before ++ newline :: rest)
      (Pending.cursor before.length .returned) =
        Pending.cursor (before ++ [newline]).length (.begun []) := by
    have hget : (before ++ newline :: rest)[before.length]? = some newline := by
      rw [List.getElem?_append_right le_rfl, Nat.sub_self]
      rfl
    rw [discardNewline_newline rfl hget, List.length_append]
    rfl
  rw [parseLines_discard hposition, hdiscard, List.append_assoc, List.singleton_append]

theorem parseLines_returned_other (before rest : Bytes) (hb : b ≠ newline) :
  parseLines maxBufferSize (before ++ b :: rest) (Pending.cursor before.length .returned) =
    parseLines maxBufferSize (before ++ b :: rest) (Pending.cursor before.length (.begun []))
  := by
  have hposition : (Pending.cursor before.length .returned).position <
      (before ++ b :: rest).length := by
    simp [Pending.cursor, Pending.line]
  have hdiscard : discardNewline (before ++ b :: rest) (Pending.cursor before.length .returned) =
      Pending.cursor before.length (.begun []) := by
    have hget : (before ++ b :: rest)[before.length]? = some b := by
      rw [List.getElem?_append_right le_rfl, Nat.sub_self]
      rfl
    rw [discardNewline_other rfl (fun h => hb (Option.some.inj (hget.symm.trans h)))]
    rfl
  rw [parseLines_discard hposition, hdiscard]

variable {p : Pending}

/-- No line has begun: a line feed may have to be discarded. -/
theorem reports_after {rest : Bytes}
    (h : ∀ before more : Bytes, more.length ≤ rest.length → Reports (parseLines maxBufferSize (before ++ more) (Pending.cursor before.length (.begun []))) (before ++ more) (splitLines maxBufferSize (.begun []) more))
    (hp : p.line = []) (before : Bytes) :
  Reports (parseLines maxBufferSize (before ++ rest) (p.cursor before.length)) (before ++ rest)
    (splitLines maxBufferSize p rest)
  := by
  match p, rest with
  | .begun line, rest =>
      obtain rfl : line = [] := hp
      exact h before rest le_rfl
  | .returned, [] =>
      rw [parseLines_done (by rw [List.append_nil]; rfl), splitLines]
      exact ⟨rfl, .inr ⟨before, .returned, rfl, rfl, rfl⟩⟩
  | .returned, b :: rest =>
      by_cases hb : b = newline
      · subst hb
        have hbytes : before ++ newline :: rest = before ++ [newline] ++ rest := by
          rw [List.append_assoc, List.singleton_append]
        rw [parseLines_returned_newline, splitLines, if_pos ⟨rfl, rfl⟩, hbytes]
        exact h (before ++ [newline]) rest (Nat.le_succ _)
      · rw [parseLines_returned_other before rest hb, splitLines, if_neg (fun h => hb h.2)]
        have hbegun := h before (b :: rest) le_rfl
        rw [splitLines, if_neg (by simp)] at hbegun
        exact hbegun

variable (maxBufferSize) in
theorem parseLines_begun (before line rest : Bytes) :
  Reports
    (parseLines maxBufferSize (before ++ line ++ rest)
      (Pending.cursor before.length (.begun line)))
    (before ++ line ++ rest) (splitLines maxBufferSize (.begun line) rest)
  := by
  induction hlength : rest.length using Nat.strong_induction_on generalizing before line rest with
  | _ length ih =>
  subst hlength
  obtain hopen | ⟨more, e, rest, rfl, hmore, he⟩ := exists_end rest
  · have hsplit := splitLines_open maxBufferSize line hopen []
    rw [List.append_nil] at hsplit
    rw [parseLines_open before line hopen, hsplit, splitLines]
    exact ⟨rfl, .inr ⟨before, .begun (line ++ rest), List.append_assoc _ _ _, rfl, rfl⟩⟩
  · rw [parseLines_end before line more rest hmore he, splitLines_end line more rest hmore he]
    split
    · exact ⟨rfl, .inl ⟨.limit, rfl, rfl⟩⟩
    · have hrest : ∀ before' more' : Bytes, more'.length ≤ rest.length →
          Reports
            (parseLines maxBufferSize (before' ++ more')
              (Pending.cursor before'.length (.begun [])))
            (before' ++ more') (splitLines maxBufferSize (.begun []) more') := by
        intro before' more' hle
        have hbegun := ih more'.length (by simp; omega) before' [] more' rfl
        rw [List.append_nil] at hbegun
        exact hbegun
      have hbytes : before ++ line ++ (more ++ e :: rest) =
          (before ++ line ++ more ++ [e]) ++ rest := by
        simp only [List.append_assoc, List.singleton_append]
      have hbefore : before.length + (line ++ more).length + 1 =
          (before ++ line ++ more ++ [e]).length := by
        simp only [List.length_append, List.length_singleton]
        omega
      have hafter : (Pending.after e).line = [] := by
        obtain rfl | rfl := he
        · rfl
        · rfl
      obtain ⟨hlines, hresult⟩ := reports_after hrest hafter (before ++ line ++ more ++ [e])
      rw [hbytes, hbefore]
      exact ⟨congrArg (lineOf (line ++ more) :: ·) hlines, hresult⟩

variable (maxBufferSize) in
theorem parseLines_reports (before : Bytes) (p : Pending) (rest : Bytes) :
  Reports (parseLines maxBufferSize (before ++ p.line ++ rest) (p.cursor before.length))
    (before ++ p.line ++ rest) (splitLines maxBufferSize p rest)
  := by
  match p with
  | .begun line => exact parseLines_begun maxBufferSize before line rest
  | .returned =>
      have hbegun : ∀ before more : Bytes, more.length ≤ rest.length →
          Reports
            (parseLines maxBufferSize (before ++ more) (Pending.cursor before.length (.begun [])))
            (before ++ more) (splitLines maxBufferSize (.begun []) more) := by
        intro before more _
        have hbegun := parseLines_begun maxBufferSize before [] more
        rw [List.append_nil] at hbegun
        exact hbegun
      have hreturned := reports_after hbegun (show Pending.returned.line = [] from rfl) before
      rw [Pending.line, List.append_nil]
      exact hreturned

/-! ### Chunks -/

/-- The line that has begun is the one in the buffer of the parser. -/
structure Holds (s : LineParser) (p : Pending) : Prop where
  line : s.buffer.getD [] = p.line
  position : s.buffer ≠ none → s.position = p.line.length
  fieldLength : s.buffer ≠ none → s.fieldLength = colonIndex p.line
  discard : s.discardTrailingNewline = p.afterReturn

theorem newLineParser_holds : Holds newLineParser (.begun [])
  := by
  constructor
  case line => rfl
  case position => exact fun h => absurd rfl h
  case fieldLength => exact fun h => absurd rfl h
  case discard => rfl

variable {s : LineParser}

/-- The lines of a chunk are found from where the parser has got to. -/
theorem parseLine_eq (h : Holds s p) (chunk : Bytes) :
  parseLine maxBufferSize s chunk =
    ((parseLines maxBufferSize (p.line ++ chunk) (p.cursor 0)).1,
      (parseLines maxBufferSize (p.line ++ chunk) (p.cursor 0)).2.bind
        (keepRest maxBufferSize (p.line ++ chunk)))
  := by
  match s with
  | ⟨none, position, fieldLength, discard⟩ =>
      have hline : [] = p.line := h.line
      have hcursor : p.cursor 0 = ⟨0, 0, -1, discard⟩ := by
        rw [Pending.cursor, ← hline, ← h.discard]
        rfl
      rw [hcursor, ← hline]
      rfl
  | ⟨some buffer, position, fieldLength, discard⟩ =>
      have hline : buffer = p.line := h.line
      have hcursor : p.cursor 0 = ⟨0, position, fieldLength, discard⟩ := by
        rw [Pending.cursor, Nat.zero_add, ← h.position (by simp), ← h.fieldLength (by simp),
          ← h.discard]
      rw [hcursor, ← hline]
      rfl

theorem exceeds_zero : exceeds maxBufferSize 0 = false
  := by
  match maxBufferSize with
  | none => rfl
  | some _ => rfl

/-- The rest of a buffer is the line that has begun. -/
theorem keepRest_cursor (before : Bytes) (p : Pending) :
  (exceeds maxBufferSize p.line.length = true ∧
      keepRest maxBufferSize (before ++ p.line) (p.cursor before.length) = .error .limit) ∨
    (exceeds maxBufferSize p.line.length = false ∧
      ∃ s, keepRest maxBufferSize (before ++ p.line) (p.cursor before.length) = .ok s ∧ Holds s p)
  := by
  have hdrop : (before ++ p.line).drop (p.cursor before.length).lineStart = p.line :=
    List.drop_left
  have hposition : (p.cursor before.length).position - (p.cursor before.length).lineStart =
      p.line.length := Nat.add_sub_cancel_left _ _
  by_cases hempty : (p.cursor before.length).lineStart = (before ++ p.line).length
  · have hline : p.line = [] := by
      rw [List.length_append] at hempty
      exact List.length_eq_zero_iff.mp (Nat.left_eq_add.mp hempty)
    refine .inr ⟨hline ▸ exceeds_zero, ⟨none, (p.cursor before.length).position,
      (p.cursor before.length).fieldLength, p.afterReturn⟩, ?_, ?_⟩
    · rw [keepRest, if_pos hempty]
      rfl
    · constructor
      case line => exact hline.symm
      case position => exact fun h => absurd rfl h
      case fieldLength => exact fun h => absurd rfl h
      case discard => rfl
  · have hkeep : keepRest maxBufferSize (before ++ p.line) (p.cursor before.length) =
        if exceeds maxBufferSize p.line.length then .error .limit
        else .ok ⟨some p.line, p.line.length, colonIndex p.line, p.afterReturn⟩ := by
      rw [keepRest, if_neg hempty]
      dsimp only
      rw [hdrop, hposition]
      rfl
    match hlong : exceeds maxBufferSize p.line.length with
    | true => exact .inl ⟨rfl, hkeep.trans (if_pos hlong)⟩
    | false =>
        refine .inr ⟨rfl, ⟨some p.line, p.line.length, colonIndex p.line, p.afterReturn⟩,
          hkeep.trans (if_neg (by rw [hlong]; exact Bool.false_ne_true)), ?_⟩
        constructor
        case line => rfl
        case position => exact fun _ => rfl
        case fieldLength => exact fun _ => rfl
        case discard => rfl

/-- The same lines, and the same error or the same line that has begun. -/
def Keeps (parsed : List Line × Except ParserError LineParser)
    (lines : List Line × Except ParserError Pending) : Prop :=
  parsed.1 = lines.1 ∧
    ((∃ e, parsed.2 = .error e ∧ lines.2 = .error e) ∨
      ∃ s p, parsed.2 = .ok s ∧ lines.2 = .ok p ∧ Holds s p)

variable (maxBufferSize) in
theorem parseLine_keeps (h : Holds s p) (chunk : Bytes) :
  Keeps (parseLine maxBufferSize s chunk) (linesOf maxBufferSize p chunk)
  := by
  have hreports : Reports (parseLines maxBufferSize (p.line ++ chunk) (p.cursor 0))
      (p.line ++ chunk) (splitLines maxBufferSize p chunk) :=
    parseLines_reports maxBufferSize [] p chunk
  obtain ⟨hlines, ⟨e, hparsed, hsplit⟩ | ⟨before, p', hbuffer, hparsed, hsplit⟩⟩ := hreports
  · rw [parseLine_eq h, linesOf, hparsed, hsplit]
    exact ⟨hlines, .inl ⟨e, rfl, rfl⟩⟩
  · rw [parseLine_eq h, linesOf, hparsed, hsplit, hbuffer]
    refine ⟨hbuffer ▸ hlines, ?_⟩
    obtain ⟨hlong, hrest⟩ | ⟨hshort, s', hrest, hholds⟩ := keepRest_cursor before p'
    · left
      exact ⟨.limit, hrest, if_pos hlong⟩
    · right
      exact ⟨s', p', hrest, if_neg (by rw [hshort]; exact Bool.false_ne_true), hholds⟩

/-! ### Lines of a concatenation -/

theorem splitLines_append (bytes more : Bytes) :
  (∀ e, (splitLines maxBufferSize p bytes).2 = .error e →
    splitLines maxBufferSize p (bytes ++ more) =
      ((splitLines maxBufferSize p bytes).1, .error e)) ∧
  ∀ q, (splitLines maxBufferSize p bytes).2 = .ok q →
    splitLines maxBufferSize p (bytes ++ more) =
      ((splitLines maxBufferSize p bytes).1 ++ (splitLines maxBufferSize q more).1,
        (splitLines maxBufferSize q more).2)
  := by
  induction bytes generalizing p with
  | nil =>
      constructor
      · rintro e ⟨⟩
      · rintro q ⟨⟩
        rfl
  | cons b bytes ih =>
      rw [List.cons_append, splitLines, splitLines]
      split
      · exact ih
      · split
        · split
          · constructor
            · rintro e ⟨⟩
              rfl
            · rintro q ⟨⟩
          · constructor
            · intro e he
              dsimp only
              rw [ih.1 e he]
            · intro q hq
              dsimp only
              rw [ih.2 q hq]
              rfl
        · exact ih

theorem exceeds_of_le {short long : ℕ} (hle : short ≤ long)
    (h : exceeds maxBufferSize short = true) :
  exceeds maxBufferSize long = true
  := by
  match maxBufferSize with
  | none => exact absurd h Bool.false_ne_true
  | some size => exact decide_eq_true ((of_decide_eq_true h : size < short).trans_le hle)

/-- A line that has become too long stays too long. -/
theorem linesOf_tooLong (h : exceeds maxBufferSize p.line.length = true) (bytes : Bytes) :
  linesOf maxBufferSize p bytes = ([], .error .limit)
  := by
  induction bytes generalizing p with
  | nil =>
      rw [linesOf, splitLines]
      exact congrArg _ (if_pos h)
  | cons b bytes ih =>
      have hnot : ¬ (p = .returned ∧ b = newline) := by
        rintro ⟨rfl, _⟩
        exact absurd (exceeds_zero.symm.trans h) Bool.false_ne_true
      rw [linesOf, splitLines, if_neg hnot]
      split
      · rfl
      · refine ih (exceeds_of_le ?_ h)
        rw [Pending.line, List.length_append]
        exact Nat.le_add_right _ _

variable {bytes : Bytes}

theorem linesOf_append_error {e : ParserError} (h : (linesOf maxBufferSize p bytes).2 = .error e)
    (more : Bytes) :
  linesOf maxBufferSize p (bytes ++ more) = ((linesOf maxBufferSize p bytes).1, .error e)
  := by
  match hsplit : (splitLines maxBufferSize p bytes).2 with
  | .error e' =>
      rw [linesOf, hsplit] at h
      obtain rfl : e' = e := Except.error.inj h
      rw [linesOf, (splitLines_append bytes more).1 e' hsplit, linesOf]
      rfl
  | .ok q =>
      rw [linesOf, hsplit] at h
      have hcheck : checkPending maxBufferSize q = .error e := h
      rw [checkPending] at hcheck
      split at hcheck
      · rename_i hlong
        obtain rfl : ParserError.limit = e := Except.error.inj hcheck
        have hmore := linesOf_tooLong hlong more
        rw [linesOf] at hmore ⊢
        rw [(splitLines_append bytes more).2 q hsplit, linesOf]
        have hlines := congrArg Prod.fst hmore
        have hresult := congrArg Prod.snd hmore
        dsimp only at hlines hresult ⊢
        rw [hlines, hresult, List.append_nil]
      · exact absurd hcheck (by rintro ⟨⟩)

variable {q : Pending}

theorem linesOf_append_ok (h : (linesOf maxBufferSize p bytes).2 = .ok q) (more : Bytes) :
  linesOf maxBufferSize p (bytes ++ more) =
    ((linesOf maxBufferSize p bytes).1 ++ (linesOf maxBufferSize q more).1,
      (linesOf maxBufferSize q more).2)
  := by
  match hsplit : (splitLines maxBufferSize p bytes).2 with
  | .error e =>
      rw [linesOf, hsplit] at h
      exact absurd h (by rintro ⟨⟩)
  | .ok q' =>
      rw [linesOf, hsplit] at h
      have hcheck : checkPending maxBufferSize q' = .ok q := h
      rw [checkPending] at hcheck
      split at hcheck
      · exact absurd hcheck (by rintro ⟨⟩)
      · obtain rfl : q' = q := Except.ok.inj hcheck
        rw [linesOf, (splitLines_append bytes more).2 q' hsplit]
        rfl

/-- The line that is left is not too long. -/
theorem linesOf_short (h : (linesOf maxBufferSize p bytes).2 = .ok q) :
  exceeds maxBufferSize q.line.length = false
  := by
  match hlong : exceeds maxBufferSize q.line.length with
  | false => rfl
  | true =>
      have hmore := linesOf_append_ok h []
      rw [List.append_nil, linesOf_tooLong hlong [], Prod.ext_iff, h] at hmore
      exact absurd hmore.2 (by rintro ⟨⟩)

variable (maxBufferSize) in
/-- Chunks are refused, or consumed, as their concatenation is. -/
theorem parseChunks_keeps (h : Holds s p) (hshort : exceeds maxBufferSize p.line.length = false)
    (chunks : List Bytes) :
  Keeps (parseChunks maxBufferSize s chunks) (linesOf maxBufferSize p chunks.flatten)
  := by
  induction chunks generalizing s p with
  | nil =>
      have hcheck : checkPending maxBufferSize p = .ok p :=
        if_neg (by rw [hshort]; exact Bool.false_ne_true)
      exact ⟨rfl, .inr ⟨s, p, rfl, hcheck, h⟩⟩
  | cons chunk chunks ih =>
      rw [parseChunks, List.flatten_cons]
      obtain ⟨hlines, ⟨e, hparsed, hresult⟩ | ⟨s', p', hparsed, hresult, hholds⟩⟩ :=
        parseLine_keeps maxBufferSize h chunk
      · rw [hparsed, linesOf_append_error hresult]
        exact ⟨hlines, .inl ⟨e, rfl, rfl⟩⟩
      · obtain ⟨hothers, hrest⟩ := ih hholds (linesOf_short hresult)
        rw [hparsed, linesOf_append_ok hresult]
        exact ⟨congrArg₂ (· ++ ·) hlines hothers, hrest⟩

/-- What a line parser has reported, and whether it has thrown an error. -/
def completed (x : List Line × Except ParserError Pending) : List Line × Except ParserError Unit :=
  (x.1, x.2.map (fun _ => ()))

variable {size : Option ℕ}

/-- A line parser reports the lines of the bytes of its chunks. -/
theorem createLineParser_lines {maxBufferSize : Option JsNumber}
    (h : validateMaxBufferSize maxBufferSize = .ok size) (chunks : List Bytes) :
  createLineParser maxBufferSize chunks = completed (linesOf size (.begun []) chunks.flatten)
  := by
  rw [createLineParser, h, completed]
  obtain ⟨hlines, ⟨e, hparsed, hresult⟩ | ⟨s, p, hparsed, hresult, _⟩⟩ :=
    parseChunks_keeps size newLineParser_holds exceeds_zero chunks
  · dsimp only
    rw [hlines, hparsed, hresult]
    rfl
  · dsimp only
    rw [hlines, hparsed, hresult]
    rfl

/-- The lines of a parser, and then those of another one unless an error has been thrown. -/
def followedBy (x y : List Line × Except ParserError Unit) :
    List Line × Except ParserError Unit :=
  match x.2 with
  | .error e => (x.1, .error e)
  | .ok _ => (x.1 ++ y.1, y.2)

/-- A carriage return ends the line that has begun. -/
theorem linesOf_return (h : (linesOf size p [carriageReturn]).2 = .ok q) :
  q = .returned
  := by
  have hsplit : splitLines size p [carriageReturn] =
      if exceeds size p.line.length then ([], .error .limit)
      else ([lineOf p.line], .ok .returned) := by
    rw [splitLines, if_neg (by rintro ⟨_, ⟨⟩⟩), if_pos (.inl rfl)]
    rfl
  have hcheck : checkPending size .returned = .ok .returned :=
    if_neg (by rw [Pending.line, List.length_nil, exceeds_zero]; exact Bool.false_ne_true)
  rw [linesOf, hsplit] at h
  split at h
  · exact absurd h (by rintro ⟨⟩)
  · exact (Except.ok.inj (hcheck.symm.trans h)).symm

theorem linesOf_append_return (h : (linesOf size p (bytes ++ [carriageReturn])).2 = .ok q) :
  q = .returned
  := by
  match hbytes : (linesOf size p bytes).2 with
  | .error e =>
      rw [linesOf_append_error hbytes] at h
      exact absurd h (by rintro ⟨⟩)
  | .ok p' =>
      rw [linesOf_append_ok hbytes] at h
      exact linesOf_return h

/-- The lines and the error of a parser do not depend on how its bytes are cut into chunks, and a
carriage return at the end of a chunk with a line feed at the start of the next chunk is the end
of one line. -/
theorem createLineParser_chunks (maxBufferSize : Option JsNumber) :
  (∀ chunks : List Bytes,
    createLineParser maxBufferSize chunks = createLineParser maxBufferSize [chunks.flatten]) ∧
  ∀ before after : Bytes,
    createLineParser maxBufferSize [before ++ [carriageReturn], newline :: after] =
      followedBy (createLineParser maxBufferSize [before ++ [carriageReturn]])
        (createLineParser maxBufferSize [after])
  := by
  match hsize : validateMaxBufferSize maxBufferSize with
  | .error e =>
      have hrefused : ∀ chunks, createLineParser maxBufferSize chunks = ([], .error e) := by
        intro chunks
        rw [createLineParser, hsize]
      constructor
      · intro chunks
        rw [hrefused, hrefused]
      · intro before after
        rw [hrefused, hrefused, followedBy]
  | .ok size =>
      constructor
      · intro chunks
        rw [createLineParser_lines hsize, createLineParser_lines hsize, List.flatten_singleton]
      · intro before after
        rw [createLineParser_lines hsize, createLineParser_lines hsize,
          createLineParser_lines hsize, List.flatten_cons, List.flatten_singleton,
          List.flatten_singleton, List.flatten_singleton]
        match hbefore : (linesOf size (.begun []) (before ++ [carriageReturn])).2 with
        | .error e =>
            rw [linesOf_append_error hbefore, completed, completed, hbefore]
            rfl
        | .ok q =>
            obtain rfl : q = .returned := linesOf_append_return hbefore
            rw [linesOf_append_ok hbefore, completed, completed, hbefore]
            rfl

end Transport.Sse
