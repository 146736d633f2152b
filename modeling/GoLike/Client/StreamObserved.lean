import GoLike.Transport.EventBlocks

/-!
# The observer reports what the client sees

The observer of a response and the client of a server stream cut the body at the same boundaries.
They read a frame alike when its lines end in one of the two ways the observer knows, no line is
empty behind one that is not, and no name begins with a byte order mark.
-/

open JsString Transport Transport.Sse

namespace Client

/-! ### The tally of a client -/

variable {α : Type} {decode : JsString → Option α} {maxEventBytes : ℕ}

/-- The terminal event with which a stream ended. -/
def Ending.terminal : Ending → Terminal
  | .ended => .ended
  | .failed _ => .error
  | _ => .none

/-- The unnamed messages that were processed, and the terminal event. -/
def Progress.seen (p : Progress α) : Tally :=
  (p.processed.countP fun processed => processed.1.event = .empty,
    (p.ending.map Ending.terminal).getD .none)

theorem field_append (line : Bytes) : fieldBytes line ++ line.dropWhile (fun b => b ≠ colon) = line :=
  List.takeWhile_append_dropWhile

theorem colon_notMem_fieldBytes (line : Bytes) : colon ∉ fieldBytes line := by
  intro h
  have := List.mem_takeWhile_imp h
  simp at this

/-- The parser reads the field and the value of a line. -/
theorem parseMessage_line (s : MessageParser) {line : Bytes} (hline : line ≠ []) :
  parseMessage none s (lineOf line) =
    parseField none s (decodeLossy (fieldBytes line)) (lineValue line)
  := by
  have hsplit := field_append line
  have hcolon := colon_notMem_fieldBytes line
  have hlength : line.length ≠ 0 := by simpa using hline
  cases hrest : line.dropWhile (fun b => b ≠ colon) with
  | nil =>
      rw [hrest, List.append_nil] at hsplit
      have hindex : colonIndex line = -1 := by
        rw [colonIndex, if_neg]
        rwa [hsplit] at hcolon
      have hvalue : lineValue line = [] := by
        rw [lineValue, hrest]
        rfl
      rw [lineOf, hindex, if_pos ⟨rfl, hline⟩, parseMessage]
      rw [if_neg hlength, hvalue, hsplit]
      congr 1
      · rw [subarrayTo, if_neg (by omega), Int.toNat_natCast, List.take_length]
      · rw [valueBytes, if_neg]
        rintro ⟨-, hget⟩
        simp at hget
  | cons b rest =>
      have hb : b = colon := by
        have hhead := List.head?_dropWhile_not (fun b => decide (b ≠ colon)) line
        rw [hrest] at hhead
        simpa using hhead
      subst hb
      rw [hrest] at hsplit
      have hline' := lineOf_field hcolon rest
      rw [hsplit] at hline'
      rw [hline', parseMessage]
      rw [if_neg hlength]
      congr 1
      · have hfield := subarrayTo_field (fieldBytes line) rest
        rw [hsplit] at hfield
        rw [hfield]
      · have hpos : hasColon line (fieldBytes line).length := by
          have := hasColon_field (fieldBytes line) rest
          rwa [hsplit] at this
        have hdrop : line.drop (((fieldBytes line).length : ℤ).toNat + 1) = rest := by
          have hrest' : (fieldBytes line ++ colon :: rest).drop ((fieldBytes line).length + 1) =
              rest := by
            rw [← List.drop_drop, List.drop_left]
            rfl
          rwa [hsplit] at hrest'
        rw [valueBytes, if_pos hpos, hdrop, lineValue, hrest]
        rfl

/-! ### The message of a block -/

/-- The parser has read what a block says. -/
def Reads (s : MessageParser) (r : Transport.Reading) : Prop :=
  s.hasData = r.hasData ∧ s.event = decodeLossy r.event

/-- A line of the client says what a line says. -/
structure SaysAs (line' line : Bytes) : Prop where
  nonempty : line' ≠ []
  data : decodeLossy (fieldBytes line') = ofString "data" ↔ fieldBytes line = dataField
  event : decodeLossy (fieldBytes line') = ofString "event" ↔ fieldBytes line = eventField
  value : lineValue line' = lineValue line

/-- The parser reads a line that says something, and reports no message. -/
theorem Reads.line {s : MessageParser} {r : Transport.Reading} (h : Reads s r) {line' line : Bytes}
    (halike : SaysAs line' line) :
  ∃ s' callback, parseMessage none s (lineOf line') = (s', .ok callback) ∧
    contents callback.toList = [] ∧ Reads s' (r.line line)
  := by
  rw [parseMessage_line s halike.nonempty, parseField, halike.value]
  simp only [halike.data, halike.event]
  unfold Transport.Reading.line
  by_cases hdata : fieldBytes line = dataField
  · have hevent : ¬ fieldBytes line = eventField := by rw [hdata]; decide
    rw [if_pos hdata, if_neg hevent, if_pos hdata]
    exact ⟨_, none, rfl, rfl, rfl, h.2⟩
  · rw [if_neg hdata, if_neg hdata]
    by_cases hevent : fieldBytes line = eventField
    · rw [if_pos hevent, if_pos hevent]
      exact ⟨_, none, rfl, rfl, h.1, rfl⟩
    · rw [if_neg hevent, if_neg hevent]
      split
      · split
        · exact ⟨_, none, rfl, rfl, h⟩
        · exact ⟨_, _, rfl, rfl, h⟩
      · split
        · exact ⟨_, _, rfl, rfl, h⟩
        · exact ⟨_, none, rfl, rfl, h⟩

/-- Empty lines at the beginning say nothing. -/
theorem Reads.blank {s : MessageParser} (h : Reads s ⟨[], false⟩) :
  ∃ s', parseMessage none s (lineOf []) = (s', .ok none) ∧ Reads s' ⟨[], false⟩
  := by
  have hdata : s.hasData = false := h.1
  refine ⟨{ s with event := .empty, data := .empty, dataBytes := 0, hasData := false }, ?_, rfl, ?_⟩
  · rw [show lineOf [] = ([], -1) from rfl, parseMessage, hdata]
    rfl
  · exact decodeLossy_nil.symm

/-- The parser reads lines that say something. -/
theorem Reads.lines {s : MessageParser} {r : Transport.Reading} (h : Reads s r) {lines : List Bytes}
    (hlines : ∀ line ∈ lines, SaysAs line line) :
  ∃ s', (parseMessages none s (lines.map lineOf)).2 = .ok s' ∧
    contents (parseMessages none s (lines.map lineOf)).1 = [] ∧
    Reads s' (lines.foldl Transport.Reading.line r)
  := by
  induction lines generalizing s r with
  | nil => exact ⟨s, rfl, rfl, h⟩
  | cons line lines ih =>
      obtain ⟨s₁, callback, hstep, hnone, hreads⟩ := h.line (hlines line List.mem_cons_self)
      obtain ⟨s', hs', hcontents, hreads'⟩ :=
        ih hreads (fun other hother => hlines other (List.mem_cons_of_mem _ hother))
      rw [List.map_cons, parseMessages, hstep]
      refine ⟨s', hs', ?_, hreads'⟩
      unfold contents at hnone hcontents ⊢
      rw [List.filterMap_append, List.map_append, hnone, hcontents]
      rfl

end Client
