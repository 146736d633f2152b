import GoLike.Client.StreamMessages
import GoLike.Transport.EventStats

/-!
# What the observer of an event stream counts

The observer reads a text, but what it counts depends on the bytes only: the blocks of the text
mirror the frames of the bytes, without their boundaries and without a byte order mark before the
first one, and its lines mirror lines of bytes. So the chunks do not matter.
-/

open JsString Transport.Sse Client

namespace Transport

/-! ### The bytes of a block -/

/-- The lines of a block. -/
def byteLines : Bytes → List Bytes
  | [] => [[]]
  | b :: bytes =>
      if b = newline then [] :: byteLines bytes
      else if b = carriageReturn ∧ bytes.head? = some newline then byteLines bytes
      else (byteLines bytes).modifyHead (b :: ·)

/-- The field of a line. -/
def fieldBytes (line : Bytes) : Bytes := line.takeWhile fun b => b ≠ colon

/-- The value of a line, without one space. -/
def lineValue (line : Bytes) : Bytes :=
  let value := (line.dropWhile fun b => b ≠ colon).tail
  if value.head? = some space then value.tail else value

/-- The name of an event that ends a stream. -/
def endName : Bytes := [101, 110, 100]

/-- The name of an event that fails a stream. -/
def errorName : Bytes := [101, 114, 114, 111, 114]

/-- The event of a block, and whether it has data. -/
structure Reading where
  event : Bytes
  hasData : Bool

/-- Read a line. -/
def Reading.line (r : Reading) (line : Bytes) : Reading :=
  if fieldBytes line = eventField then { r with event := lineValue line }
  else if fieldBytes line = dataField then { r with hasData := true }
  else r

/-- Read lines. -/
def Reading.of (lines : List Bytes) : Reading := lines.foldl Reading.line ⟨[], false⟩

/-- What a block is. -/
inductive Verdict where
  | silent
  | message
  | terminal (kind : Terminal)
  deriving DecidableEq

def Reading.verdict (r : Reading) : Verdict :=
  if r.hasData = false then .silent
  else if r.event = [] then .message
  else if r.event = endName then .terminal .ended
  else if r.event = errorName then .terminal .error
  else .silent

/-- The messages before the first terminal event, and its kind. -/
abbrev Tally : Type := ℕ × Terminal

def Tally.add (t : Tally) (v : Verdict) : Tally :=
  if t.2 ≠ .none then t
  else
    match v with
    | .silent => t
    | .message => (t.1 + 1, t.2)
    | .terminal kind => (t.1, kind)

/-- The bytes of a frame without its boundary. -/
def blockOf (frame : Bytes) : Bytes :=
  if [carriageReturn, newline, carriageReturn, newline] <:+ frame then
    frame.take (frame.length - 4)
  else frame.take (frame.length - 2)

/-- What the observer reads in a frame. -/
def blockVerdict (frame : Bytes) : Verdict := (Reading.of (byteLines (blockOf frame))).verdict

/-! ### Lines -/

theorem eventLines_newline (cs : List Char) :
  eventLines ('\n' :: cs) = [] :: eventLines cs
  := by rw [eventLines]

variable {c : Char}

theorem eventLines_other (hc : c ≠ '\n') (cs : List Char)
    (hreturn : ¬ (c = '\r' ∧ cs.head? = some '\n')) :
  eventLines (c :: cs) = (eventLines cs).modifyHead (c :: ·)
  := by
  rw [eventLines]
  · exact hc
  · rintro rest rfl rfl
    exact hreturn ⟨rfl, rfl⟩

theorem eventLines_return (cs : List Char) :
  eventLines ('\r' :: '\n' :: cs) = eventLines ('\n' :: cs)
  := by rw [eventLines, eventLines]

variable {group : Bytes}

/-- The first line grows by a cell. -/
theorem forall₂_modifyHead {lines : List Bytes} {texts : List (List Char)} (hcell : Cell group c)
    (h : List.Forall₂ Mirrors lines texts) :
  List.Forall₂ Mirrors (lines.modifyHead (group ++ ·)) (texts.modifyHead (c :: ·))
  := by
  cases h with
  | nil => exact .nil
  | cons hline h => exact .cons (.cons hcell hline) h

/-- Bytes that end no line are put before the first line. -/
theorem byteLines_large (h : ∀ b ∈ group, 0x80 ≤ b.toNat) (bytes : Bytes) :
  byteLines (group ++ bytes) = (byteLines bytes).modifyHead (group ++ ·)
  := by
  induction group with
  | nil =>
      rw [List.nil_append]
      cases byteLines bytes with
      | nil | cons => rfl
  | cons b group ih =>
      have hb := h b List.mem_cons_self
      have hnewline : b ≠ newline := by
        rintro rfl
        exact absurd hb (by decide)
      have hreturn : ¬ (b = carriageReturn ∧ (group ++ bytes).head? = some newline) := by
        rintro ⟨rfl, -⟩
        exact absurd hb (by decide)
      rw [List.cons_append, byteLines, if_neg hnewline, if_neg hreturn,
        ih (fun b' hb' => h b' (List.mem_cons_of_mem _ hb')), List.modifyHead_modifyHead]
      rfl

variable {bytes : Bytes} {cs : List Char}

/-- The lines of a text mirror those of its bytes. -/
theorem mirrors_lines (h : Mirrors bytes cs) :
  List.Forall₂ Mirrors (byteLines bytes) (eventLines cs)
  := by
  induction h with
  | nil => exact .cons .nil .nil
  | @cons group bytes c cs hcell h ih =>
      cases hcell with
      | @ascii b hb =>
          rw [List.singleton_append, byteLines]
          split_ifs with hnewline hreturn
          · subst hnewline
            exact (eventLines_newline cs).symm ▸ .cons .nil ih
          · obtain ⟨rfl, hhead⟩ := hreturn
            have hhead' := (h.head_iff (by decide)).1 hhead
            obtain ⟨cs', rfl⟩ := List.head?_eq_some_iff.1 hhead'
            exact (eventLines_return cs').symm ▸ ih
          · rw [eventLines_other]
            · exact forall₂_modifyHead (.ascii hb) ih
            · intro heq
              exact hnewline ((charOf_inj_small hb (by decide)).1 heq)
            · rintro ⟨heq, hhead⟩
              apply hreturn
              constructor
              · exact (charOf_inj_small hb (by decide)).1 heq
              · exact (h.head_iff (by decide)).2 hhead
      | other hne hgroup hc hmark =>
          rw [byteLines_large hgroup, eventLines_other]
          · exact forall₂_modifyHead (.other hne hgroup hc hmark) ih
          · rintro rfl
            exact absurd hc (by decide)
          · rintro ⟨rfl, -⟩
            exact absurd hc (by decide)

/-! ### Blocks -/

variable {line : Bytes} {text : List Char}

theorem mirrors_fieldOf (h : Mirrors line text) :
  Mirrors (fieldBytes line) (fieldOf text)
  := (h.cut (b := colon) (by decide)).1

theorem mirrors_valueOf (h : Mirrors line text) :
  Mirrors (lineValue line) (valueOf text)
  := by
  have hdrop : Mirrors (line.dropWhile fun b => b ≠ colon) (text.dropWhile fun c => c ≠ ':') :=
    (h.cut (b := colon) (by decide)).2
  unfold lineValue valueOf
  generalize line.dropWhile (fun b => b ≠ colon) = bytes at hdrop ⊢
  generalize htext : text.dropWhile (fun c => c ≠ ':') = cs at hdrop ⊢
  obtain ⟨bytes', cs', rfl, rfl, hrest⟩ | ⟨-, hcs⟩ := hdrop.uncons (b := colon) (by decide)
  · have hcolon : charOf colon.toNat = ':' := rfl
    have hspace : charOf space.toNat = ' ' := rfl
    rw [hcolon] at htext ⊢
    obtain ⟨value, value', rfl, rfl, hvalue⟩ | ⟨hbytes, hcs⟩ :=
      hrest.uncons (b := space) (by decide)
    · rw [hspace]
      exact hvalue
    · dsimp only [List.tail_cons]
      rw [if_neg hbytes]
      split
      · rename_i heq
        simp only [List.cons.injEq, true_and] at heq
        rw [heq, hspace] at hcs
        simp at hcs
      · rename_i heq
        simp only [List.cons.injEq, true_and] at heq
        rwa [← heq]
      · rename_i hnot
        exact absurd rfl (hnot cs')
  · -- A text that was dropped up to a colon has none.
    have hnil : cs = [] := by
      cases cs with
      | nil => rfl
      | cons c cs =>
          have hhead := List.head?_dropWhile_not (fun c => decide (c ≠ ':')) text
          rw [htext, List.head?_cons] at hhead
          simp at hhead
          rw [List.head?_cons, hhead] at hcs
          exact absurd rfl hcs
    subst hnil
    rw [hdrop.eq_nil_iff.2 rfl]
    exact .nil

/-- A block of text has the event and the data of its bytes. -/
def Block.Mirrors (r : Reading) (block : Block) : Prop :=
  JsString.Mirrors r.event block.event ∧ r.hasData = !block.data.isEmpty

/-- A field is known by its bytes. -/
theorem fieldOf_eq_iff (h : Mirrors line text) (word : Bytes) (hword : ∀ b ∈ word, b.toNat < 0x80) :
  fieldOf text = (word.map fun b => charOf b.toNat) ↔ fieldBytes line = word
  := ((mirrors_fieldOf h).eq_iff hword).symm

theorem mirrors_line {r : Reading} {block : Block} (h : block.Mirrors r)
    (hline : Mirrors line text) :
  (block.line text).Mirrors (r.line line)
  := by
  have hevent := fieldOf_eq_iff hline eventField (small_of_all rfl)
  have hdata := fieldOf_eq_iff hline dataField (small_of_all rfl)
  have heventText : (eventField.map fun b => charOf b.toNat) = "event".toList := rfl
  have hdataText : (dataField.map fun b => charOf b.toNat) = "data".toList := rfl
  rw [heventText] at hevent
  rw [hdataText] at hdata
  have hskip : text.isEmpty || text.head? = some ':' → fieldOf text = [] := by
    intro hskip
    cases text with
    | nil => rfl
    | cons c cs =>
        have hc : c = ':' := by simpa using hskip
        rw [hc]
        rfl
  unfold Block.line Reading.line
  by_cases hempty : text.isEmpty || text.head? = some ':'
  · have hfield := hskip hempty
    rw [if_pos hempty, if_neg, if_neg]
    · exact h
    · rw [← hdata, hfield]
      exact (List.cons_ne_nil _ _).symm
    · rw [← hevent, hfield]
      exact (List.cons_ne_nil _ _).symm
  · rw [if_neg hempty]
    by_cases hisEvent : fieldBytes line = eventField
    · rw [if_pos hisEvent, if_pos (hevent.2 hisEvent)]
      exact ⟨mirrors_valueOf hline, h.2⟩
    · rw [if_neg hisEvent, if_neg (fun heq => hisEvent (hevent.1 heq))]
      by_cases hisData : fieldBytes line = dataField
      · rw [if_pos hisData, if_pos (hdata.2 hisData)]
        exact ⟨h.1, by simp⟩
      · rw [if_neg hisData, if_neg (fun heq => hisData (hdata.1 heq))]
        exact h

theorem mirrors_read (h : Mirrors bytes cs) :
  (Block.read cs).Mirrors (Reading.of (byteLines bytes))
  := by
  have hlines : ∀ (lines : List Bytes) (texts : List (List Char)) (r : Reading) (block : Block),
      List.Forall₂ Mirrors lines texts → block.Mirrors r →
      (texts.foldl Block.line block).Mirrors (lines.foldl Reading.line r) := by
    intro lines texts r block hlines
    induction hlines generalizing r block with
    | nil => exact id
    | cons hline _ ih =>
        intro hblock
        exact ih _ _ (mirrors_line hblock hline)
  exact hlines _ _ _ _ (mirrors_lines h) ⟨.nil, rfl⟩

variable {numberValue : List UInt16 → JsNumber}

/-- What the observer has counted. -/
def EventStats.tally (stats : EventStats) : Tally := (stats.messageCount, stats.terminal)

/-- A block counts as its bytes. -/
theorem tally_consumeEvent (h : Mirrors bytes cs) (stats : EventStats) :
  (consumeEvent numberValue cs stats).tally =
    stats.tally.add (Reading.of (byteLines bytes)).verdict
  := by
  obtain ⟨hevent, hdata⟩ := mirrors_read h
  have hname : ∀ word : Bytes, (∀ b ∈ word, b.toNat < 0x80) →
      ((Reading.of (byteLines bytes)).event = word ↔
        (Block.read cs).event = word.map fun b => charOf b.toNat) := by
    intro word hword
    exact hevent.eq_iff hword
  have hendText : (endName.map fun b => charOf b.toNat) = "end".toList := rfl
  have herrorText : (errorName.map fun b => charOf b.toNat) = "error".toList := rfl
  have hend := hname endName (small_of_all rfl)
  have herror := hname errorName (small_of_all rfl)
  have hnil : (Reading.of (byteLines bytes)).event = [] ↔ (Block.read cs).event.isEmpty := by
    rw [List.isEmpty_iff]
    exact hname [] (by simp)
  rw [hendText] at hend
  rw [herrorText] at herror
  unfold consumeEvent Tally.add EventStats.tally Reading.verdict
  dsimp only
  by_cases hterminal : stats.terminal = .none
  · rw [if_neg (not_not.2 hterminal), if_neg (not_not.2 hterminal), hdata]
    by_cases hempty : (Block.read cs).data.isEmpty
    · rw [if_pos hempty, if_pos (by rw [hempty]; rfl)]
    · have hsome : ¬ (!(Block.read cs).data.isEmpty) = false := by simpa using hempty
      rw [if_neg hempty, if_neg hsome]
      by_cases hunnamed : (Block.read cs).event.isEmpty
      · rw [if_pos hunnamed, if_pos (hnil.2 hunnamed)]
      · rw [if_neg hunnamed, if_neg (fun heq => hunnamed (hnil.1 heq))]
        by_cases hended : (Block.read cs).event = "end".toList
        · rw [if_pos hended, if_pos (hend.2 hended)]
        · rw [if_neg hended, if_neg (fun heq => hended (hend.1 heq))]
          by_cases hfailed : (Block.read cs).event = "error".toList
          · rw [if_pos hfailed, if_pos (herror.2 hfailed)]
          · rw [if_neg hfailed, if_neg (fun heq => hfailed (herror.1 heq))]
  · rw [if_pos hterminal, if_pos hterminal]

/-! ### Boundaries -/

/-- The first boundary begins with the first character, or behind it. -/
theorem nextBoundary_cons (c : Char) (cs : List Char) :
  nextBoundary (c :: cs) =
    if ['\n', '\n'] <+: c :: cs then some (0, 2)
    else if ['\r', '\n', '\r', '\n'] <+: c :: cs then some (0, 4)
    else (nextBoundary cs).map fun found => (found.1 + 1, found.2)
  := by
  simp only [nextBoundary, indexOf, List.isPrefixOf_iff_prefix]
  by_cases hlf : ['\n', '\n'] <+: c :: cs
  · rw [if_pos hlf, if_pos hlf]
    cases (if ['\r', '\n', '\r', '\n'] <+: c :: cs then some 0
        else (indexOf ['\r', '\n', '\r', '\n'] cs).map (· + 1)) with
    | none => rfl
    | some crlf => exact if_pos (Nat.zero_le crlf)
  · rw [if_neg hlf, if_neg hlf]
    by_cases hcrlf : ['\r', '\n', '\r', '\n'] <+: c :: cs
    · rw [if_pos hcrlf, if_pos hcrlf]
      cases indexOf ['\n', '\n'] cs with
      | none => rfl
      | some lf => simp
    · rw [if_neg hcrlf, if_neg hcrlf]
      cases indexOf ['\n', '\n'] cs with
      | none =>
          cases indexOf ['\r', '\n', '\r', '\n'] cs with
          | none | some => rfl
      | some lf =>
          cases indexOf ['\r', '\n', '\r', '\n'] cs with
          | none => rfl
          | some crlf =>
              simp only [Option.map_some, Nat.add_le_add_iff_right]
              split_ifs <;> rfl

/-- A text is cut at its first boundary like its bytes. -/
inductive CutAlike (bytes : Bytes) (cs : List Char) (index : ℕ) : Prop where
  | uncut (hbytes : searchBoundary bytes index = none) (hcs : nextBoundary cs = none) :
      CutAlike bytes cs index
  | cut (block boundary rest : Bytes) (start width : ℕ) (hbytes : bytes = block ++ (boundary ++ rest))
      (hboundary : isBoundary boundary) (hwidth : boundary.length = width)
      (hsearch : searchBoundary bytes index = some (index + block.length + width))
      (hcs : nextBoundary cs = some (start, width)) (hblock : Mirrors block (cs.take start))
      (hrest : Mirrors rest (cs.drop (start + width))) : CutAlike bytes cs index

theorem boundaryAt_large {b : UInt8} (hb : 0x80 ≤ b.toNat) (bytes : Bytes) :
  boundaryAt (b :: bytes) = none
  := by
  have hnewline : newline ≠ b := by
    rintro rfl
    exact absurd hb (by decide)
  have hreturn : carriageReturn ≠ b := by
    rintro rfl
    exact absurd hb (by decide)
  simp [boundaryAt, hnewline, hreturn]

theorem searchBoundary_large (h : ∀ b ∈ group, 0x80 ≤ b.toNat) (bytes : Bytes) (index : ℕ) :
  searchBoundary (group ++ bytes) index = searchBoundary bytes (index + group.length)
  := by
  induction group generalizing index with
  | nil => rfl
  | cons b group ih =>
      rw [List.cons_append, searchBoundary, boundaryAt_large (h b List.mem_cons_self)]
      dsimp only
      rw [ih (fun b' hb' => h b' (List.mem_cons_of_mem _ hb')), List.length_cons]
      congr 1
      omega

/-- A cell before bytes without a boundary at it. -/
theorem CutAlike.cons {index : ℕ} (hcell : Cell group c)
    (h : CutAlike bytes cs (index + group.length))
    (hsearch : searchBoundary (group ++ bytes) index = searchBoundary bytes (index + group.length))
    (hnext : nextBoundary (c :: cs) = (nextBoundary cs).map fun found => (found.1 + 1, found.2)) :
  CutAlike (group ++ bytes) (c :: cs) index
  := by
  cases h with
  | uncut hbytes hcs =>
      apply CutAlike.uncut
      · rw [hsearch, hbytes]
      · rw [hnext, hcs]
        rfl
  | cut block boundary rest start width hbytes hboundary hwidth hfound hcs hblock hrest =>
      apply CutAlike.cut (group ++ block) boundary rest (start + 1) width _ hboundary hwidth
      · rw [hsearch, hfound, List.length_append]
        congr 1
        omega
      · rw [hnext, hcs]
        rfl
      · rw [List.take_succ_cons]
        exact .cons hcell hblock
      · rw [Nat.add_right_comm, List.drop_succ_cons]
        exact hrest
      · rw [hbytes, List.append_assoc]

theorem cutAlike (h : Mirrors bytes cs) (index : ℕ) :
  CutAlike bytes cs index
  := by
  induction h generalizing index with
  | nil => exact .uncut rfl rfl
  | @cons group bytes c cs hcell h ih =>
      have hall := Mirrors.cons hcell h
      have hlfText : ([newline, newline].map fun b => charOf b.toNat) = ['\n', '\n'] := rfl
      have hcrlfText : ([carriageReturn, newline, carriageReturn, newline].map fun b =>
          charOf b.toNat) = ['\r', '\n', '\r', '\n'] := rfl
      have hlf := hall.prefix [newline, newline] (small_of_all rfl)
      have hcrlf := hall.prefix [carriageReturn, newline, carriageReturn, newline] (small_of_all rfl)
      rw [hlfText] at hlf
      rw [hcrlfText] at hcrlf
      have hnext := nextBoundary_cons c cs
      cases hcell with
      | other hne hgroup hc hmark =>
          apply CutAlike.cons (.other hne hgroup hc hmark) (ih _) (searchBoundary_large hgroup _ _)
          rw [hnext, if_neg, if_neg]
          · intro hprefix
            rw [List.cons_prefix_cons] at hprefix
            rw [← hprefix.1] at hc
            exact absurd hc (by decide)
          · intro hprefix
            rw [List.cons_prefix_cons] at hprefix
            rw [← hprefix.1] at hc
            exact absurd hc (by decide)
      | @ascii b hb =>
          have hsearch : searchBoundary ([b] ++ bytes) index =
              (boundaryAt ([b] ++ bytes)).elim (searchBoundary bytes (index + 1))
                fun length => some (index + length) := by
            rw [List.singleton_append, searchBoundary]
            cases boundaryAt (b :: bytes) with
            | none | some => rfl
          simp only [boundaryAt, List.isPrefixOf_iff_prefix] at hsearch
          obtain ⟨hbytes, hcs, hrest⟩ | ⟨hbytes, hcs⟩ := hlf
          · rw [if_pos hbytes] at hsearch
            rw [if_pos hcs] at hnext
            obtain ⟨rest, hrest'⟩ := hbytes
            rw [← hrest'] at hsearch hrest ⊢
            exact .cut [] [newline, newline] rest 0 2 rfl (.inl rfl) rfl hsearch hnext .nil hrest
          · rw [if_neg hbytes] at hsearch
            rw [if_neg hcs] at hnext
            obtain ⟨hbytes, hcs, hrest⟩ | ⟨hbytes, hcs⟩ := hcrlf
            · rw [if_pos hbytes] at hsearch
              rw [if_pos hcs] at hnext
              obtain ⟨rest, hrest'⟩ := hbytes
              rw [← hrest'] at hsearch hrest ⊢
              exact .cut [] [carriageReturn, newline, carriageReturn, newline] rest 0 4 rfl
                (.inr rfl) rfl hsearch hnext .nil hrest
            · rw [if_neg hbytes] at hsearch
              rw [if_neg hcs] at hnext
              exact .cons (.ascii hb) (ih _) hsearch hnext

/-! ### Frames -/

theorem blockOf_eq {block boundary : Bytes} (h : isBoundary boundary) :
  blockOf (block ++ boundary) = block
  := by
  obtain rfl | rfl := h
  · have hnot : ¬ [carriageReturn, newline, carriageReturn, newline] <:+ block ++ [newline, newline] := by
      rintro ⟨before, heq⟩
      have hlast := congrArg (fun l => l.dropLast.getLast?) heq
      simp at hlast
      exact absurd hlast (by decide)
    rw [blockOf, if_neg hnot]
    simp
  · rw [blockOf, if_pos (List.suffix_append _ _)]
    simp

variable (numberValue) in
/-- The tally of a text is that of the frames of its bytes, and what is left mirrors what is left. -/
theorem drain_tally (h : Mirrors bytes cs) (stats : EventStats) :
  (drain numberValue stats cs).1.tally =
      ((splitFrames bytes).1.map blockVerdict).foldl Tally.add stats.tally ∧
    Mirrors (splitFrames bytes).2 (drain numberValue stats cs).2
  := by
  induction bytes using splitFrames.induct generalizing cs stats with
  | case1 bytes hnone =>
      rw [splitFrames_none hnone]
      cases cutAlike h 0 with
      | uncut _ hcs =>
          rw [drain]
          split
          · exact ⟨rfl, h⟩
          · rename_i hsome
            rw [hcs] at hsome
            cases hsome
      | cut _ _ _ _ _ _ _ _ hsearch =>
          rw [eventBoundary, List.drop_zero, hsearch] at hnone
          cases hnone
  | case2 bytes boundary hboundary ih =>
      rw [splitFrames_some hboundary]
      rw [eventBoundary, List.drop_zero] at hboundary
      cases cutAlike h 0 with
      | uncut hbytes _ =>
          rw [hbytes] at hboundary
          cases hboundary
      | cut block tail rest start width hbytes htail hwidth hsearch hcs hblock hrest =>
          rw [hsearch, Nat.zero_add, Option.some.injEq] at hboundary
          have hlength : boundary = (block ++ tail).length := by
            rw [← hboundary, List.length_append, hwidth]
          have htake : bytes.take boundary = block ++ tail := by
            rw [hbytes, ← List.append_assoc, hlength, List.take_left]
          have hdrop : bytes.drop boundary = rest := by
            rw [hbytes, ← List.append_assoc, hlength, List.drop_left]
          rw [hdrop] at ih ⊢
          rw [htake, drain]
          split
          · rename_i hnone
            rw [hcs] at hnone
            cases hnone
          · rename_i start' width' hsome
            rw [hcs] at hsome
            cases hsome
            obtain ⟨htally, hleft⟩ := ih hrest (consumeEvent numberValue (cs.take start) stats)
            refine ⟨?_, hleft⟩
            rw [htally, tally_consumeEvent hblock, List.map_cons, List.foldl_cons, blockVerdict,
              blockOf_eq htail]

/-! ### Chunks -/

/-- The bytes of a body behind a byte order mark. -/
def unmarked (bytes : Bytes) : Bytes := if markBytes <+: bytes then bytes.drop 3 else bytes

/-- The tally of the frames of bytes. -/
def tallyOf (bytes : Bytes) : Tally :=
  ((splitFrames bytes).1.map blockVerdict).foldl Tally.add (0, .none)

/-- The observer has decoded bytes to a text, all but those that are left. -/
structure Observes (o : Observer) (text : List Char) (left bytes : Bytes) : Prop where
  reading : Utf8Decoder.Reading o.decoder left
  begun : o.begun = !text.isEmpty
  counted : ∃ seen, Mirrors seen (stripMark text) ∧ bytes = markOf text ++ seen ++ left ∧
    o.stats.tally = tallyOf seen ∧ Mirrors (splitFrames seen).2 o.pending

/-- The tally of bytes goes on from what is left behind the last frame. -/
theorem tallyOf_append (bytes more : Bytes) :
  tallyOf (bytes ++ more) =
    ((splitFrames ((splitFrames bytes).2 ++ more)).1.map blockVerdict).foldl Tally.add
      (tallyOf bytes)
  := by
  rw [tallyOf, splitFrames_append, List.map_append, List.foldl_append]
  rfl

variable (numberValue) in
theorem Observes.receive {o : Observer} {left done left' chunk : Bytes}
    (h : Observes o text left bytes) (hleft : left ++ chunk = done ++ left')
    (hdone : Mirrors done cs) {decoder : Utf8Decoder}
    (hreading : Utf8Decoder.Reading decoder left') :
  Observes (o.receive numberValue decoder cs) (text ++ cs) left' (bytes ++ chunk)
  := by
  obtain ⟨seen, hseen, hbytes, htally, hpending⟩ := h.counted
  -- The new characters, without a mark when they are the first ones.
  have hnew : ∃ new, Mirrors new (if o.begun then cs else stripMark cs) ∧
      stripMark (text ++ cs) = stripMark text ++ (if o.begun then cs else stripMark cs) ∧
      bytes ++ chunk = markOf (text ++ cs) ++ (seen ++ new) ++ left' := by
    have hsplit : bytes ++ chunk = markOf text ++ seen ++ done ++ left' := by
      rw [hbytes, List.append_assoc, hleft]
      simp only [List.append_assoc]
    cases text with
    | nil =>
        obtain rfl : seen = [] := hseen.eq_nil_iff.2 rfl
        obtain ⟨new, hnew, hmirrors⟩ := hdone.strip
        rw [h.begun]
        refine ⟨new, hmirrors, rfl, ?_⟩
        rw [hsplit, hnew]
        simp [markOf]
    | cons c text =>
        rw [h.begun]
        refine ⟨done, hdone, ?_, ?_⟩
        · rw [List.cons_append, stripMark, stripMark]
          split <;> rfl
        · rw [hsplit]
          simp [markOf]
  obtain ⟨new, hnew, hstrip, hall⟩ := hnew
  obtain ⟨htally', hpending'⟩ := drain_tally numberValue (hpending.append hnew) o.stats
  constructor
  · exact hreading
  · cases text <;> simp [Observer.receive, h.begun]
  · refine ⟨seen ++ new, ?_, hall, ?_, ?_⟩
    · rw [hstrip]
      exact hseen.append hnew
    · rw [tallyOf_append, ← htally]
      exact htally'
    · rw [splitFrames_append]
      exact hpending'

end Transport
