import GoLike.Config.Etcd.Watcher

/-!
# What the etcd watcher holds

The watcher holds a revision up to which each change has been followed by a call of `next`
that resolved. A stream carries the changes after this revision, and a range request reads
the key after them.
-/

open Store Relation ChangeLog

namespace Config.Etcd

variable {options : WatcherOptions} {commits : Commits}

/-! ### What the watcher holds -/

/-- The header of a frame of changes carries a revision of the store. -/
def Sent.bounded (revision : ℕ) : Sent → Prop
  | events header _ _ _ => header ≤ revision
  | _ => True

theorem Sent.bounded.mono {frame : Sent} {revision revision' : ℕ} (h : frame.bounded revision)
    (hle : revision ≤ revision') :
  frame.bounded revision'
  := by
  cases frame with
  | events header upTo event more => exact h.trans hle
  | created | progress | canceled => trivial

/-- The stream delivers the changes after a revision. -/
structure Stream.Follows (commits : Commits) (revision current : ℕ) (stream : Stream) : Prop where
  delivers : Delivers frames commits current stream.sent stream.inbox
  bounded : ∀ frame ∈ stream.inbox, frame.bounded revision

/-- Each change between the candidate revision and the revision of the watcher was followed
by a call that resolved, and the call that is active will be told of the changes after it. -/
structure Tracks (commits : Commits) (candidate : ℕ) (s : World) : Prop where
  resolved : ∀ r, candidate < r → r ≤ s.watcher.current.value → commits r ≠ none → s.Resolved r
  waiting : s.watcher.waiting = s.watcher.active.isSome
  recovering : ∀ call, s.watcher.active = some call → call.phase = .sleeping →
    call.recovering = true
  reading : s.watcher.reading = true → s.stream.isSome = true
  stream : ∀ stream, s.stream = some stream →
    stream.Follows commits s.revision s.watcher.current.value
  reply : ∀ response, s.reply = some response →
    ∃ r ≤ s.revision, response = rangeAt commits r

namespace Stream.Follows

variable {revision current : ℕ} {stream : Stream}

theorem mono {revision' : ℕ} (h : stream.Follows commits revision current)
    (hle : revision ≤ revision') :
  stream.Follows commits revision' current
  := ⟨h.delivers, fun frame hmem => (h.bounded frame hmem).mono hle⟩

theorem bounded_append (h : stream.Follows commits revision current) {frame : Sent}
    (hframe : frame.bounded revision) :
  ∀ frame' ∈ stream.inbox ++ [frame], frame'.bounded revision
  := by
  intro frame' hmem
  obtain hmem | hmem := List.mem_append.mp hmem
  · exact h.bounded frame' hmem
  · rw [List.mem_singleton.mp hmem]
    exact hframe

/-- A frame is sent that carries no change. -/
theorem send (h : stream.Follows commits revision current) (frame : Sent)
    (hframe : frame.bounded revision) :
  (stream.send frame).Follows commits revision current
  := by
  constructor
  case delivers => exact h.delivers.send_mark (by rintro mark ⟨⟩)
  case bounded => exact h.bounded_append hframe

theorem sends {stream' : Stream} (h : stream.Follows commits revision current)
    (hsends : Sends commits revision stream stream') :
  stream'.Follows commits revision current
  := by
  cases hsends with
  | created hcreated header =>
      have hsend := h.send (.created header) trivial
      exact ⟨hsend.delivers, hsend.bounded⟩
  | events hcreated hchanged hupTo hheader =>
      constructor
      case delivers =>
        apply h.delivers.send
        · intro r hr hle hchange
          exact ⟨_, rfl, hle⟩
        · rintro mark ⟨⟩
      case bounded => exact h.bounded_append hheader
  | canceled header compactRevision =>
      have hsend := h.send (.canceled header compactRevision) trivial
      exact ⟨hsend.delivers, hsend.bounded⟩
  | closed => exact ⟨h.delivers, h.bounded⟩

/-- A frame is read that carries no change. -/
theorem read {frame : Sent} {rest : List Sent} (h : stream.Follows commits revision current)
    (hinbox : stream.inbox = frame :: rest) (hframe : frames.carries frame = none) :
  Follows commits revision current { stream with inbox := rest }
  := by
  constructor
  case delivers =>
    have hdelivers := h.delivers
    rw [hinbox] at hdelivers
    apply hdelivers.read
    rintro r - ⟨upTo, hcarries, -⟩
    rw [hframe] at hcarries
    cases hcarries
  case bounded =>
    intro frame' hmem
    apply h.bounded
    rw [hinbox]
    exact List.mem_cons_of_mem _ hmem

end Stream.Follows

/-! ### What a call does -/

/-- What the watcher makes of what its call waits for. -/
inductive Outcome (w : Watcher) (revision : ℕ) : Watcher × Option Settlement → Prop where
  | goOn (call : Next) (h : call.phase = .sleeping → call.recovering = true) :
      Outcome w revision (w.goOn call)
  | rejected (reason : Rejection) : Outcome w revision (w.settle (.rejected reason))
  | moved {current : Revision} (h : current.value ≤ revision) :
      Outcome w revision (w.moved current)

variable {w : Watcher} {call : Next} {revision : ℕ}

theorem outcome_caught (value : Thrown) :
  Outcome w revision (w.caught call value)
  := by
  rw [Watcher.caught]
  split
  · exact .rejected _
  · split
    · exact .rejected _
    · split
      · apply Outcome.goOn
        intro _
        rfl
      · exact .rejected _

/-- After a failure the call does not read from its stream. -/
theorem not_reading_caught (value : Thrown) :
  (w.caught call value).1.reading = false
  := by
  rw [Watcher.caught]
  split
  · rfl
  · split
    · rfl
    · split
      · rfl
      · rfl

@[simp]
theorem frameRead_created (r : ℕ) :
  w.frameRead call (Sent.created r).line = w.goOn call
  := by rw [Watcher.frameRead, parseWatchFrame_created]

@[simp]
theorem frameRead_progress (r : ℕ) :
  w.frameRead call (Sent.progress r).line = w.goOn call
  := by rw [Watcher.frameRead, parseWatchFrame_progress]

@[simp]
theorem frameRead_events (r upTo : ℕ) (event : Json) (more : List Json) :
  w.frameRead call (Sent.events r upTo event more).line = w.moved (.ofNat r)
  := by rw [Watcher.frameRead, parseWatchFrame_events]

@[simp]
theorem frameRead_canceled (r compactRevision : ℕ) :
  w.frameRead call (Sent.canceled r compactRevision).line =
    if 0 < compactRevision then w.goOn { call with phase := .ranging }
    else w.caught call (.protocol .watch)
  := by
  by_cases hcompact : 0 < compactRevision
  · rw [Watcher.frameRead, parseWatchFrame_canceled, if_pos hcompact, if_pos hcompact]
  · rw [Watcher.frameRead, parseWatchFrame_canceled, if_neg hcompact, if_neg hcompact]

theorem outcome_frameRead {frame : Sent} (hphase : call.phase = .reading)
    (hframe : frame.bounded revision) :
  Outcome w revision (w.frameRead call frame.line)
  := by
  have hgoOn : Outcome w revision (w.goOn call) := by
    apply Outcome.goOn
    intro hsleeping
    rw [hphase] at hsleeping
    cases hsleeping
  cases frame with
  | created header =>
      rw [frameRead_created]
      exact hgoOn
  | events header upTo event more =>
      rw [frameRead_events]
      apply Outcome.moved
      rw [Revision.value_ofNat]
      exact hframe
  | progress header =>
      rw [frameRead_progress]
      exact hgoOn
  | canceled header compactRevision =>
      rw [frameRead_canceled]
      split
      · apply Outcome.goOn
        rintro ⟨⟩
      · exact outcome_caught _

/-- A call that goes on to read has read no change. -/
theorem carries_of_reading {frame : Sent}
    (h : (w.frameRead call frame.line).1.reading = true) :
  frames.carries frame = none
  := by
  cases frame with
  | events header upTo event more =>
      rw [frameRead_events] at h
      cases h
  | created | progress | canceled => rfl

theorem outcome_ranged {r : ℕ} (hr : r ≤ revision) :
  Outcome w revision (w.ranged call (rangeAt commits r))
  := by
  rw [Watcher.ranged]
  split
  · exact outcome_caught _
  · rename_i recovered hparse
    apply Outcome.moved
    rw [parseRangeResponse_rangeAt hparse, Revision.value_ofNat]
    exact hr

theorem not_reading_ranged (response : Json) :
  (w.ranged call response).1.reading = false
  := by
  rw [Watcher.ranged]
  split
  · exact not_reading_caught _
  · rfl

theorem outcome_aborted :
  Outcome w revision (w.aborted call)
  := .rejected _

theorem outcome_waited :
  Outcome w revision (w.waited options call)
  := by
  apply Outcome.goOn
  intro hsleeping
  dsimp only at hsleeping
  split at hsleeping
  · cases hsleeping
  · cases hsleeping

theorem not_reading_waited :
  (w.waited options call).1.reading = false
  := by
  cases hrecovering : call.recovering with
  | true | false => simp [Watcher.waited, Watcher.goOn, Watcher.reading, hrecovering]

/-! ### Steps -/

variable {candidate : ℕ} {s : World}

@[simp]
theorem resolved_record (settlement : Option Settlement) (r : ℕ) :
  (s.record settlement).Resolved r ↔
    s.Resolved r ∨ settlement = some .resolved ∧ r ≤ s.revision
  := by
  simp only [World.Resolved, World.record, List.mem_append, Option.mem_toList,
    Option.map_eq_some_iff, Prod.mk.injEq]
  constructor
  · rintro ⟨t, h | ⟨o, ho, rfl, rfl⟩, hle⟩
    · exact .inl ⟨t, h, hle⟩
    · exact .inr ⟨ho, hle⟩
  · rintro (⟨t, h, hle⟩ | ⟨ho, hle⟩)
    · exact ⟨t, .inl h, hle⟩
    · exact ⟨s.revision, .inr ⟨_, ho, rfl, rfl⟩, hle⟩

/-- The watcher goes on with a stream that its call reads. -/
theorem Tracks.proceed (h : Tracks commits candidate s) (hactive : s.watcher.active = some call)
    {stream : Option Stream} {result : Watcher × Option Settlement}
    (houtcome : Outcome s.watcher s.revision result)
    (hstream : result.1.reading = true → ∃ stream', stream = some stream' ∧
      stream'.Follows commits s.revision s.watcher.current.value) :
  Tracks commits candidate (World.proceed { s with stream := stream } result)
  := by
  cases houtcome with
  | goOn call hsleeping =>
      constructor
      case resolved =>
        intro r hr hle hchange
        exact (resolved_record _ _).mpr (.inl (h.resolved r hr hle hchange))
      case waiting =>
        have hwaiting := h.waiting
        rw [hactive] at hwaiting
        exact hwaiting
      case recovering =>
        rintro _ ⟨⟩
        exact hsleeping
      case reading =>
        intro hreading
        obtain ⟨stream', rfl, -⟩ := hstream hreading
        dsimp only [World.proceed, World.record] at hreading ⊢
        rw [if_pos hreading]
        rfl
      case stream =>
        intro stream' hstream'
        dsimp only [World.proceed, World.record] at hstream'
        split at hstream'
        · rename_i hreading
          obtain ⟨stream'', hsome, hfollows⟩ := hstream hreading
          rw [hstream'] at hsome
          cases hsome
          exact hfollows
        · cases hstream'
      case reply => rintro _ ⟨⟩
  | rejected reason =>
      constructor
      case resolved =>
        intro r hr hle hchange
        exact (resolved_record _ _).mpr (.inl (h.resolved r hr hle hchange))
      case waiting => rfl
      case recovering => rintro _ ⟨⟩
      case reading => rintro ⟨⟩
      case stream => rintro _ ⟨⟩
      case reply => rintro _ ⟨⟩
  | moved hle' =>
      constructor
      case resolved =>
        intro r hr hle hchange
        exact (resolved_record _ _).mpr (.inr ⟨rfl, hle.trans hle'⟩)
      case waiting => rfl
      case recovering => rintro _ ⟨⟩
      case reading => rintro ⟨⟩
      case stream => rintro _ ⟨⟩
      case reply => rintro _ ⟨⟩

/-- The watcher goes on without a stream. -/
theorem Tracks.proceed_idle (h : Tracks commits candidate s)
    (hactive : s.watcher.active = some call) {result : Watcher × Option Settlement}
    (houtcome : Outcome s.watcher s.revision result) (hreading : result.1.reading = false) :
  Tracks commits candidate (s.proceed result)
  := by
  apply h.proceed hactive houtcome
  intro hreading'
  rw [hreading] at hreading'
  cases hreading'

theorem Tracks.caught (h : Tracks commits candidate s) (hactive : s.watcher.active = some call)
    (value : Thrown) :
  Tracks commits candidate (s.proceed (s.watcher.caught call value))
  := h.proceed_idle hactive (outcome_caught value) (not_reading_caught value)

theorem Tracks.frameRead (h : Tracks commits candidate s)
    (hactive : s.watcher.active = some call) (hphase : call.phase = .reading) {stream : Stream}
    {frame : Sent} {rest : List Sent} (hstream : s.stream = some stream)
    (hinbox : stream.inbox = frame :: rest) :
  Tracks commits candidate
    (World.proceed { s with stream := some { stream with inbox := rest } }
      (s.watcher.frameRead call frame.line))
  := by
  have hfollows := h.stream stream hstream
  have hbounded := hfollows.bounded frame (by simp [hinbox])
  apply h.proceed hactive (outcome_frameRead hphase hbounded)
  intro hreading
  exact ⟨_, rfl, hfollows.read hinbox (carries_of_reading hreading)⟩

/-- A call of the application that is allowed keeps what is tracked. -/
theorem Tracks.perform (h : Tracks commits candidate s) {call : AppCall}
    (hlive : liveCall s call) :
  Tracks commits candidate (s.perform options call)
  := by
  cases call with
  | stop => exact ⟨h.resolved, h.waiting, h.recovering, h.reading, h.stream, h.reply⟩
  | next ended =>
      have hsame (settlement : Option Settlement) :
          Tracks commits candidate ({ s with watcher := s.watcher }.record settlement) := by
        refine ⟨?_, h.waiting, h.recovering, h.reading, h.stream, h.reply⟩
        intro r hr hle hchange
        exact (resolved_record _ _).mpr (.inl (h.resolved r hr hle hchange))
      rw [World.perform, Watcher.next]
      split
      · exact hsame _
      · rename_i hstopped
        split
        · exact hsame _
        · rename_i hwaiting
          have hended := hlive (by simpa using hstopped) (by simpa using hwaiting)
          rw [hended, if_neg (by simp)]
          constructor
          case resolved =>
            intro r hr hle hchange
            exact (resolved_record _ _).mpr (.inl (h.resolved r hr hle hchange))
          case waiting => rfl
          case recovering =>
            rintro _ ⟨⟩ ⟨⟩
          case reading => rintro ⟨⟩
          case stream => exact h.stream
          case reply => exact h.reply

/-- A step that advances a call keeps what is tracked. -/
theorem Tracks.advances {s' : World} (h : Tracks commits candidate s)
    (hstep : Advances options commits s s') :
  Tracks commits candidate s'
  := by
  cases hstep with
  | called hidle =>
      apply h.perform
      intro _ _
      rfl
  | opened hactive hphase =>
      constructor
      case resolved => exact h.resolved
      case waiting =>
        have hwaiting := h.waiting
        rw [hactive] at hwaiting
        exact hwaiting
      case recovering =>
        rintro _ ⟨⟩ ⟨⟩
      case reading =>
        intro _
        rfl
      case stream =>
        rintro _ ⟨⟩
        exact ⟨delivers_nil (Unchanged.refl _), fun frame hmem => absurd hmem List.not_mem_nil⟩
      case reply => exact h.reply
  | openFailed hactive hphase value | streamBroke hactive hphase value =>
      exact h.caught hactive value
  | sends hstream hopen hsends =>
      refine ⟨h.resolved, h.waiting, h.recovering, fun _ => rfl, ?_, h.reply⟩
      rintro _ ⟨⟩
      exact (h.stream _ hstream).sends hsends
  | frameRead hactive hphase hstream hinbox => exact h.frameRead hactive hphase hstream hinbox
  | streamEnded hactive hphase hstream hinbox hclosed => exact h.caught hactive _
  | answered hactive hphase hreply =>
      refine ⟨h.resolved, h.waiting, h.recovering, h.reading, h.stream, ?_⟩
      rintro _ ⟨⟩
      exact ⟨s.revision, le_rfl, rfl⟩
  | ranged hactive hphase hreply =>
      obtain ⟨r, hr, rfl⟩ := h.reply _ hreply
      apply h.proceed_idle hactive (outcome_ranged hr)
      exact not_reading_ranged _
  | waited hactive hphase =>
      apply h.proceed_idle hactive outcome_waited
      exact not_reading_waited
  | aborted hactive haborted => exact h.proceed_idle hactive outcome_aborted rfl

/-- A step that hinders a call keeps what is tracked. -/
theorem Tracks.hinders {s' : World} (h : Tracks commits candidate s)
    (hstep : Hinders options liveCall s s') :
  Tracks commits candidate s'
  := by
  cases hstep with
  | commit =>
      refine ⟨h.resolved, h.waiting, h.recovering, h.reading, ?_, ?_⟩
      · intro stream hstream
        exact (h.stream stream hstream).mono (Nat.le_succ _)
      · intro response hreply
        obtain ⟨r, hr, hresponse⟩ := h.reply response hreply
        exact ⟨r, hr.trans (Nat.le_succ _), hresponse⟩
  | progress hstream hopen header =>
      refine ⟨h.resolved, h.waiting, h.recovering, fun _ => rfl, ?_, h.reply⟩
      rintro _ ⟨⟩
      exact (h.stream _ hstream).send _ trivial
  | contextEnds hactive =>
      constructor
      case resolved => exact h.resolved
      case waiting =>
        have hwaiting := h.waiting
        rw [hactive] at hwaiting
        exact hwaiting
      case recovering =>
        have hrecovering := h.recovering _ hactive
        rintro _ ⟨⟩
        exact hrecovering
      case reading =>
        have hreading := h.reading
        rw [Watcher.reading, hactive] at hreading
        exact hreading
      case stream => exact h.stream
      case reply => exact h.reply
  | rangeFailed hactive hphase value => exact h.caught hactive value
  | call call hallowed => exact h.perform hallowed

theorem Tracks.run {s' : World} (h : Tracks commits candidate s)
    (hrun : ReflTransGen (Step options commits liveCall) s s') :
  Tracks commits candidate s'
  := by
  induction hrun with
  | refl => exact h
  | tail _ hstep ih =>
      obtain hstep | hstep := hstep
      · exact ih.advances hstep
      · exact ih.hinders hstep

theorem tracks_start {candidateText : Option JsString} (revision : ℕ)
    (hcreated : createWatcher candidateText = .ok w) :
  Tracks commits w.current.value (start revision w)
  := by
  obtain ⟨hwaiting, hactive⟩ : w.waiting = false ∧ w.active = none := by
    cases candidateText with
    | none =>
        cases hcreated
        exact ⟨rfl, rfl⟩
    | some text =>
        obtain ⟨current, -, hcreated⟩ := ok_of_bind hcreated
        cases hcreated
        exact ⟨rfl, rfl⟩
  constructor
  case resolved =>
    intro r hr hle
    exact absurd hle (not_le.mpr hr)
  case waiting =>
    dsimp only [start]
    rw [hwaiting, hactive]
    rfl
  case recovering =>
    intro call hcall
    dsimp only [start] at hcall
    rw [hactive] at hcall
    cases hcall
  case reading =>
    dsimp only [start]
    rw [Watcher.reading, hactive]
    rintro ⟨⟩
  case stream => rintro _ ⟨⟩
  case reply => rintro _ ⟨⟩

end Config.Etcd
