import GoLike.Client.Stream

/-!
# The frames of a stream do not depend on chunks

The bytes of a body are cut into frames, and what is left behind the last one. The client
takes these frames, however the body is cut into chunks, although it searches a boundary only
from three bytes before the end of what it has searched before.
-/

open Transport.Sse

namespace Client

/-! ### The pending bytes -/

theorem setBytes_drop_take {buffer : Bytes} (source : Bytes) {offset start : ℕ}
    (hstart : start ≤ offset) (hoffset : offset ≤ buffer.length) :
  ((setBytes buffer offset source).drop start).take (offset - start + source.length) =
    (buffer.drop start).take (offset - start) ++ source
  := by
  have hbelow : (buffer.take offset).drop start = (buffer.drop start).take (offset - start) :=
    List.drop_take
  have hlength : ((buffer.drop start).take (offset - start)).length = offset - start := by
    rw [List.length_take, List.length_drop]
    omega
  rw [setBytes, List.drop_append_of_le_length (by rw [List.length_take]; omega), hbelow]
  nth_rewrite 1 [← hlength]
  rw [List.take_length_add_append, List.take_left]

/-- A new buffer holds the pending bytes and the chunk. -/
theorem setBytes_grown (old chunk : Bytes) (size : ℕ) (hsize : old.length + chunk.length ≤ size) :
  (setBytes (setBytes (List.replicate size 0) 0 old) old.length chunk).take
      (old.length + chunk.length) =
    old ++ chunk
  := by
  have hcopied : (setBytes (List.replicate size 0) 0 old).take old.length = old := by
    rw [setBytes, List.take_zero, List.nil_append, List.take_left]
  have hlength : old.length ≤ (setBytes (List.replicate size 0) 0 old).length := by
    rw [length_setBytes, List.length_replicate]
    · omega
    · rw [List.length_replicate]
      omega
  have htake := setBytes_drop_take chunk (Nat.zero_le old.length) hlength
  rw [Nat.sub_zero, List.drop_zero, List.drop_zero, hcopied] at htake
  exact htake

/-- The bytes of a chunk are behind the pending ones. -/
theorem bytes_appendBytes (pending : PendingBytes) (chunk : Bytes) :
  (appendBytes pending chunk).bytes.bytes = pending.bytes.bytes ++ chunk
  := by
  have hwithin := pending.bytes.within
  rw [appendBytes]
  split
  · have htake := setBytes_drop_take chunk
      (Nat.le_add_right pending.bytes.byteOffset pending.bytes.byteLength) hwithin
    rw [Nat.add_sub_cancel_left] at htake
    exact htake
  · have hgrown := setBytes_grown pending.bytes.bytes chunk
      ((pending.bytes.byteLength + chunk.length) * 2)
      (by rw [View.length_bytes]; omega)
    rw [View.length_bytes] at hgrown
    exact hgrown

@[simp]
theorem scanned_appendBytes (pending : PendingBytes) (chunk : Bytes) :
  (appendBytes pending chunk).scanned = pending.scanned
  := by
  rw [appendBytes]
  split
  · rfl
  · rfl

/-! ### Boundaries -/

variable {bytes : Bytes}

theorem isPrefixOf_append {boundary : Bytes} (h : boundary.length ≤ bytes.length) (more : Bytes) :
  boundary.isPrefixOf (bytes ++ more) = boundary.isPrefixOf bytes
  := by
  rw [Bool.eq_iff_iff, List.isPrefixOf_iff_prefix, List.isPrefixOf_iff_prefix]
  constructor
  · intro hbelow
    exact List.prefix_of_prefix_length_le hbelow (List.prefix_append _ _) h
  · intro hbelow
    exact hbelow.trans (List.prefix_append _ _)

/-- Four bytes are enough to tell whether a boundary starts. -/
theorem boundaryAt_append_of_le (h : 4 ≤ bytes.length) (more : Bytes) :
  boundaryAt (bytes ++ more) = boundaryAt bytes
  := by
  have htwo : [newline, newline].length ≤ bytes.length := Nat.le_trans (by decide) h
  have hfour : [carriageReturn, newline, carriageReturn, newline].length ≤ bytes.length := h
  rw [boundaryAt, boundaryAt, isPrefixOf_append htwo, isPrefixOf_append hfour]

theorem boundaryAt_append {length : ℕ} (h : boundaryAt bytes = some length) (more : Bytes) :
  boundaryAt (bytes ++ more) = some length
  := by
  rw [boundaryAt] at h ⊢
  split at h
  · rename_i hbelow
    rw [isPrefixOf_append (List.isPrefixOf_iff_prefix.mp hbelow).length_le, if_pos hbelow]
    exact h
  · rename_i hnot
    split at h
    · rename_i hbelow
      have hle := (List.isPrefixOf_iff_prefix.mp hbelow).length_le
      have htwo : [newline, newline].length ≤ bytes.length := Nat.le_trans (by decide) hle
      rw [isPrefixOf_append htwo, if_neg hnot, isPrefixOf_append hle, if_pos hbelow]
      exact h
    · cases h

variable {index boundary : ℕ}

/-- A boundary in the bytes after the first one is not preceded by one that more bytes
complete. -/
theorem boundaryAt_append_none {b : UInt8} {rest : Bytes} (hnone : boundaryAt (b :: rest) = none)
    (h : searchBoundary rest index = some boundary) (more : Bytes) :
  boundaryAt (b :: rest ++ more) = none
  := by
  match rest with
  | [] => cases h
  | [x] =>
      rw [searchBoundary] at h
      have hstart : boundaryAt [x] = none := by
        simp [boundaryAt]
      rw [hstart] at h
      cases h
  | [x, y] =>
      have hxy : x = newline ∧ y = newline := by
        by_contra hnot
        simp [searchBoundary, boundaryAt, newline, carriageReturn] at h hnot
        grind
      obtain ⟨rfl, rfl⟩ := hxy
      simp [boundaryAt, newline, carriageReturn] at hnone ⊢
      grind
  | x :: y :: z :: rest =>
      rw [boundaryAt_append_of_le (by simp)]
      exact hnone

theorem searchBoundary_append (h : searchBoundary bytes index = some boundary) (more : Bytes) :
  searchBoundary (bytes ++ more) index = some boundary
  := by
  induction bytes generalizing index with
  | nil => cases h
  | cons b rest ih =>
      rw [searchBoundary] at h
      rw [List.cons_append, searchBoundary, ← List.cons_append]
      cases hstart : boundaryAt (b :: rest) with
      | some length =>
          rw [hstart] at h
          rw [boundaryAt_append hstart]
          exact h
      | none =>
          rw [hstart] at h
          rw [boundaryAt_append_none hstart h]
          exact ih h

/-- No boundary starts before an index. -/
def Scanned (bytes : Bytes) (index : ℕ) : Prop := ∀ i < index, boundaryAt (bytes.drop i) = none

/-- The search may start where no boundary starts before. -/
theorem eventBoundary_scanned (h : Scanned bytes index) :
  eventBoundary bytes index = eventBoundary bytes 0
  := by
  induction index with
  | zero => rfl
  | succ index ih =>
      rw [← ih (fun i hi => h i (Nat.lt_succ_of_lt hi))]
      have hnone := h index (Nat.lt_succ_self index)
      rw [eventBoundary, eventBoundary]
      cases hdrop : bytes.drop index with
      | nil =>
          have hrest : bytes.drop (index + 1) = [] := by
            rw [← List.drop_drop, hdrop, List.drop_nil]
          rw [hrest]
          rfl
      | cons b rest =>
          have hrest : bytes.drop (index + 1) = rest := by
            rw [← List.drop_drop, hdrop]
            rfl
          rw [hdrop] at hnone
          rw [hrest, searchBoundary, hnone]

/-- Without a boundary, none starts anywhere. -/
theorem scanned_of_searchBoundary (h : searchBoundary bytes index = none) (i : ℕ) :
  boundaryAt (bytes.drop i) = none
  := by
  induction bytes generalizing index i with
  | nil =>
      rw [List.drop_nil]
      rfl
  | cons b rest ih =>
      rw [searchBoundary] at h
      split at h
      · cases h
      · rename_i hnone
        cases i with
        | zero => exact hnone
        | succ i => exact ih h i

/-- The offset of the search stays true when bytes are appended. -/
def Resumes (bytes : Bytes) (index : ℕ) : Prop :=
  Scanned bytes index ∧ (index = 0 ∨ index + 3 ≤ bytes.length)

theorem Resumes.append (h : Resumes bytes index) (more : Bytes) :
  Resumes (bytes ++ more) index
  := by
  obtain ⟨hscanned, hindex⟩ := h
  constructor
  · intro i hi
    have hle : index + 3 ≤ bytes.length := by omega
    have hfour : 4 ≤ (bytes.drop i).length := by
      rw [List.length_drop]
      omega
    rw [List.drop_append_of_le_length (by omega), boundaryAt_append_of_le hfour]
    exact hscanned i hi
  · rw [List.length_append]
    omega

/-! ### The frames of bytes -/

theorem eventBoundary_zero (h : eventBoundary bytes 0 = some boundary) :
  0 < boundary ∧ boundary ≤ bytes.length
  := by
  have hle := le_searchBoundary h
  rw [List.drop_zero, Nat.zero_add] at hle
  exact hle

/-- The frames of bytes, and the bytes behind the last one. -/
def splitFrames (bytes : Bytes) : List Bytes × Bytes :=
  match _h : eventBoundary bytes 0 with
  | none => ([], bytes)
  | some boundary =>
      let rest := splitFrames (bytes.drop boundary)
      (bytes.take boundary :: rest.1, rest.2)
termination_by bytes.length
decreasing_by
  have hboundary := eventBoundary_zero _h
  rw [List.length_drop]
  omega

theorem splitFrames_none (h : eventBoundary bytes 0 = none) :
  splitFrames bytes = ([], bytes)
  := by
  rw [splitFrames]
  split
  · rfl
  · rename_i hsome
    rw [h] at hsome
    cases hsome

theorem splitFrames_some (h : eventBoundary bytes 0 = some boundary) :
  splitFrames bytes =
    (bytes.take boundary :: (splitFrames (bytes.drop boundary)).1,
      (splitFrames (bytes.drop boundary)).2)
  := by
  rw [splitFrames]
  split
  · rename_i hnone
    rw [h] at hnone
    cases hnone
  · rename_i hsome
    rw [h] at hsome
    cases hsome
    rfl

theorem eventBoundary_append (h : eventBoundary bytes 0 = some boundary) (more : Bytes) :
  eventBoundary (bytes ++ more) 0 = some boundary
  := by
  rw [eventBoundary, List.drop_zero] at h ⊢
  exact searchBoundary_append h more

/-- Behind the last frame there is no boundary. -/
theorem eventBoundary_rest (bytes : Bytes) :
  eventBoundary (splitFrames bytes).2 0 = none
  := by
  induction bytes using splitFrames.induct with
  | case1 bytes h =>
      rw [splitFrames_none h]
      exact h
  | case2 bytes boundary h ih =>
      rw [splitFrames_some h]
      exact ih

/-- Bytes behind others are cut after what those have left. -/
theorem splitFrames_append (bytes more : Bytes) :
  splitFrames (bytes ++ more) =
    ((splitFrames bytes).1 ++ (splitFrames ((splitFrames bytes).2 ++ more)).1,
      (splitFrames ((splitFrames bytes).2 ++ more)).2)
  := by
  induction bytes using splitFrames.induct with
  | case1 bytes h => rw [splitFrames_none h, List.nil_append]
  | case2 bytes boundary h ih =>
      have hle := (eventBoundary_zero h).2
      rw [splitFrames_some (eventBoundary_append h more), splitFrames_some h,
        List.take_append_of_le_length hle, List.drop_append_of_le_length hle, ih,
        List.cons_append]

/-! ### The frames that are taken -/

variable {α : Type} {decode : JsString → Option α} {maxEventBytes : ℕ}

/-- Process frames, until one ends the stream. -/
def processFrames (decode : JsString → Option α) (maxEventBytes : ℕ) (p : Progress α) :
    List Bytes → Progress α
  | [] => p
  | frame :: frames =>
      let next := p.frame decode maxEventBytes frame
      if next.ending.isSome then next else processFrames decode maxEventBytes next frames

theorem processFrames_append (p : Progress α) (frames more : List Bytes) (hp : p.ending = none) :
  processFrames decode maxEventBytes p (frames ++ more) =
    let next := processFrames decode maxEventBytes p frames
    if next.ending.isSome then next else processFrames decode maxEventBytes next more
  := by
  induction frames generalizing p with
  | nil => simp [processFrames, hp]
  | cons frame frames ih =>
      rw [List.cons_append, processFrames, processFrames]
      dsimp only
      split
      · rfl
      · rename_i hnot
        exact ih _ (Option.not_isSome_iff_eq_none.mp hnot)

variable {pending : PendingBytes}

theorem takeFrame_none (h : eventBoundary pending.bytes.bytes pending.scanned = none) :
  takeFrame pending = (none, { pending with scanned := pending.bytes.byteLength - 3 })
  := by rw [takeFrame, h]

theorem takeFrame_some (h : eventBoundary pending.bytes.bytes pending.scanned = some boundary) :
  takeFrame pending =
    (some (pending.bytes.bytes.take boundary), ⟨pending.bytes.subarray boundary, 0⟩)
  := by rw [takeFrame, h]

variable (decode maxEventBytes) in
theorem takeFrames_none (p : Progress α)
    (h : eventBoundary pending.bytes.bytes pending.scanned = none) :
  takeFrames decode maxEventBytes p pending =
    (p, { pending with scanned := pending.bytes.byteLength - 3 })
  := by
  rw [takeFrames]
  split
  · rw [takeFrame_none h]
  · rename_i hsome
    rw [takeFrame_none h] at hsome
    cases hsome

variable (decode maxEventBytes) in
theorem takeFrames_some (p : Progress α)
    (h : eventBoundary pending.bytes.bytes pending.scanned = some boundary) :
  takeFrames decode maxEventBytes p pending =
    let next := p.frame decode maxEventBytes (pending.bytes.bytes.take boundary)
    let rest : PendingBytes := ⟨pending.bytes.subarray boundary, 0⟩
    if next.ending.isSome then (next, rest) else takeFrames decode maxEventBytes next rest
  := by
  rw [takeFrames]
  split
  · rename_i hnone
    rw [takeFrame_some h] at hnone
    cases hnone
  · rename_i hsome
    rw [takeFrame_some h] at hsome ⊢
    cases hsome
    rfl

variable (decode maxEventBytes) in
/-- The frames of the pending bytes are taken. What is left of them has no boundary, and the
search can be resumed, unless the stream has ended. -/
theorem takeFrames_processes (p : Progress α) (pending : PendingBytes)
    (hresumes : Resumes pending.bytes.bytes pending.scanned) :
  let taken := takeFrames decode maxEventBytes p pending
  taken.1 = processFrames decode maxEventBytes p (splitFrames pending.bytes.bytes).1 ∧
    (taken.1.ending = none →
      taken.2.bytes.bytes = (splitFrames pending.bytes.bytes).2 ∧
        Resumes taken.2.bytes.bytes taken.2.scanned)
  := by
  induction hlength : pending.bytes.byteLength using Nat.strong_induction_on
    generalizing p pending with
  | _ length ih =>
      have hsearch := eventBoundary_scanned hresumes.1
      cases hboundary : eventBoundary pending.bytes.bytes 0 with
      | none =>
          rw [takeFrames_none decode maxEventBytes p (hsearch.trans hboundary), splitFrames_none hboundary]
          refine ⟨rfl, fun _ => ⟨rfl, ?_, ?_⟩⟩
          · intro i _
            rw [eventBoundary, List.drop_zero] at hboundary
            exact scanned_of_searchBoundary hboundary i
          · dsimp only
            rw [View.length_bytes]
            omega
      | some boundary =>
          have hle := eventBoundary_zero hboundary
          rw [View.length_bytes] at hle
          rw [takeFrames_some decode maxEventBytes p (hsearch.trans hboundary), splitFrames_some hboundary]
          dsimp only [processFrames]
          split
          · rename_i hended
            refine ⟨rfl, ?_⟩
            intro hnot
            rw [hnot] at hended
            cases hended
          · have hshorter : pending.bytes.byteLength - boundary < length := by omega
            have hstart : Resumes (pending.bytes.subarray boundary).bytes 0 :=
              ⟨fun i hi => absurd hi (Nat.not_lt_zero i), .inl rfl⟩
            have hrest := ih _ hshorter
              (p.frame decode maxEventBytes (pending.bytes.bytes.take boundary))
              ⟨pending.bytes.subarray boundary, 0⟩ hstart rfl
            rw [View.bytes_subarray] at hrest
            exact hrest

/-! ### The chunks of a body -/

/-- The iteration of a stream whose body arrives at once. -/
def iterateFrames (decode : JsString → Option α) (maxEventBytes : ℕ) (p : Progress α)
    (frames : List Bytes) : Progress α :=
  let next := processFrames decode maxEventBytes p frames
  if next.ending.isSome then next else { next with ending := some .unterminated }

/-- The stream ends because of the limit. -/
def Trips (p : Progress α) : Prop := ∃ actual, p.ending = some (.tooLarge actual)

/-- The bytes that are left are not too many, when the stream does not trip. -/
theorem checkUnfinished_of_not_trips {p : Progress α}
    (h : ¬ Trips (checkUnfinished maxEventBytes p pending)) :
  checkUnfinished maxEventBytes p pending = p
  := by
  rw [checkUnfinished] at h ⊢
  split
  · rfl
  · rename_i hnot
    rw [if_neg hnot] at h
    split
    · rename_i hlarge
      rw [if_pos hlarge] at h
      exact absurd ⟨_, rfl⟩ h
    · rfl

theorem iterateFrames_append (p : Progress α) (frames more : List Bytes) (hp : p.ending = none) :
  iterateFrames decode maxEventBytes p (frames ++ more) =
    let next := processFrames decode maxEventBytes p frames
    if next.ending.isSome then next else iterateFrames decode maxEventBytes next more
  := by
  rw [iterateFrames, processFrames_append p frames more hp]
  dsimp only
  split
  · rfl
  · rfl

/-- The iteration processes the frames of the bytes, however they arrive. -/
theorem iterateFrom_processes (p : Progress α) (hp : p.ending = none) (pending : PendingBytes)
    (hresumes : Resumes pending.bytes.bytes pending.scanned)
    (hpending : eventBoundary pending.bytes.bytes 0 = none) (chunks : List Bytes)
    (htrips : ¬ Trips (iterateFrom decode maxEventBytes p pending chunks)) :
  iterateFrom decode maxEventBytes p pending chunks =
    iterateFrames decode maxEventBytes p
      (splitFrames (pending.bytes.bytes ++ chunks.flatten)).1
  := by
  induction chunks generalizing p pending with
  | nil =>
      have hsearch := eventBoundary_scanned hresumes.1
      have htaken := takeFrames_none decode maxEventBytes p
        (hsearch.trans hpending)
      rw [List.flatten_nil, List.append_nil, splitFrames_none hpending]
      rw [iterateFrom, htaken] at htrips ⊢
      have hchecked : ¬ Trips (checkUnfinished maxEventBytes p
          { pending with scanned := pending.bytes.byteLength - 3 }) := by
        intro hlarge
        obtain ⟨actual, hactual⟩ := hlarge
        dsimp only at htrips
        rw [if_pos (by rw [hactual]; rfl)] at htrips
        exact htrips ⟨actual, hactual⟩
      dsimp only
      rw [checkUnfinished_of_not_trips hchecked]
      rfl
  | cons chunk chunks ih =>
      have hresumes' : Resumes (appendBytes pending chunk).bytes.bytes
          (appendBytes pending chunk).scanned := by
        rw [bytes_appendBytes, scanned_appendBytes]
        exact hresumes.append chunk
      obtain ⟨hprocessed, hleft⟩ := takeFrames_processes decode
        maxEventBytes p (appendBytes pending chunk) hresumes'
      rw [bytes_appendBytes] at hprocessed hleft
      rw [List.flatten_cons, ← List.append_assoc, splitFrames_append,
        iterateFrames_append p _ _ hp, ← hprocessed]
      rw [iterateFrom] at htrips ⊢
      have hchecked : ¬ Trips (checkUnfinished maxEventBytes
          (takeFrames decode maxEventBytes p (appendBytes pending chunk)).1
          (takeFrames decode maxEventBytes p (appendBytes pending chunk)).2) := by
        intro hlarge
        obtain ⟨actual, hactual⟩ := hlarge
        rw [if_pos (by rw [hactual]; rfl)] at htrips
        exact htrips ⟨actual, hactual⟩
      rw [checkUnfinished_of_not_trips hchecked] at htrips ⊢
      by_cases hended :
          (takeFrames decode maxEventBytes p (appendBytes pending chunk)).1.ending.isSome = true
      · rw [if_pos hended]
        exact (if_pos hended).symm
      · rw [if_neg hended] at htrips ⊢
        refine Eq.trans ?_ (if_neg hended).symm
        have hgoing := Option.not_isSome_iff_eq_none.mp hended
        obtain ⟨hbytes, hresumes''⟩ := hleft hgoing
        rw [ih _ hgoing _ hresumes'' (by rw [hbytes]; exact eventBoundary_rest _) htrips, hbytes]

/-- A stream whose limit does not trip is the iteration of the frames of its body. -/
theorem iterate_eq (chunks : List Bytes)
    (htrips : ¬ Trips (iterate decode maxEventBytes chunks)) :
  iterate decode maxEventBytes chunks =
    iterateFrames decode maxEventBytes noProgress (splitFrames chunks.flatten).1
  := by
  have hempty : Resumes noBytes.bytes.bytes noBytes.scanned :=
    ⟨fun i hi => absurd hi (Nat.not_lt_zero i), .inl rfl⟩
  exact iterateFrom_processes noProgress rfl noBytes hempty rfl chunks htrips

end Client
