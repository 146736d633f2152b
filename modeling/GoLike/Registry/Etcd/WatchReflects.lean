import GoLike.Registry.Etcd.Watch

/-!
# What the etcd watcher reflects

A created frame carries the revision of the store, and moves the watcher past changes
whose events are still to come. As long as these are listed before the watcher leaves the
stream, it opens each watch from a revision that its snapshot reflects.
-/

open Store Relation ChangeLog

namespace Registry.Etcd

variable {urls : UrlParser} {options : WatcherOptions} {commits : Commits}

/-! ### Instances at a revision -/

/-- The snapshot is that of the instances of the service at a revision. -/
def Reflects (options : WatcherOptions) (commits : Commits) (r : ℕ) (current : Snapshot urls) :
    Prop :=
  serviceInstances options.texts options.keyPrefix options.serviceName (snapshotAt commits r) =
    .ok current

theorem Reflects.unchanged {a b : ℕ} {current : Snapshot urls}
    (h : Reflects options commits a current) (hle : a ≤ b) (hunchanged : Unchanged commits a b) :
  Reflects options commits b current
  := by
  have hrecords : stateAt [] commits b = stateAt [] commits a := stateAt_unchanged hle hunchanged
  rw [Reflects] at h ⊢
  rw [← h]
  simp only [serviceInstances, decodeSnapshot, snapshotAt, hrecords]

/-! ### What a stream delivers -/

/-- The revisions of a frame are those of the store. -/
def Sent.bounded (revision : ℕ) : Sent → Prop
  | created header => header ≤ revision
  | events _ upTo => upTo ≤ revision
  | progress header => header ≤ revision
  | canceled _ _ _ => True

variable {frame : Sent}

theorem Sent.bounded.mono {revision revision' : ℕ} (h : frame.bounded revision)
    (hle : revision ≤ revision') :
  frame.bounded revision'
  := by
  cases frame with
  | created | events | progress => exact h.trans hle
  | canceled created header compactRevision => trivial

/-- The stream delivers the changes after `floor`, and its revisions are those of the
store. -/
structure Stream.Delivers (commits : Commits) (revision floor : ℕ) (stream : Stream) : Prop where
  sent : stream.sent ≤ revision
  bounded : ∀ frame ∈ stream.inbox, frame.bounded revision
  delivers : ChangeLog.Delivers frames commits floor stream.sent stream.inbox

namespace Stream.Delivers

variable {revision floor : ℕ} {stream : Stream}

theorem mono {revision' floor' : ℕ} (h : stream.Delivers commits revision floor)
    (hrevision : revision ≤ revision') (hfloor : floor ≤ floor') :
  stream.Delivers commits revision' floor'
  := by
  refine ⟨h.sent.trans hrevision, ?_, h.delivers.mono hfloor⟩
  intro frame hmem
  exact (h.bounded frame hmem).mono hrevision

variable {frame : Sent}

theorem bounded_append (h : stream.Delivers commits revision floor)
    (hframe : frame.bounded revision) :
  ∀ frame' ∈ stream.inbox ++ [frame], frame'.bounded revision
  := by
  intro frame' hmem
  obtain hmem | hmem := List.mem_append.mp hmem
  · exact h.bounded frame' hmem
  · rw [List.mem_singleton.mp hmem]
    exact hframe

/-- What the server does keeps what the stream delivers. -/
theorem sends {stream' : Stream} (h : stream.Delivers commits revision floor)
    (hsends : Sends commits revision stream stream') :
  stream'.Delivers commits revision floor
  := by
  cases hsends with
  | created hcreated =>
      have hframe : (Sent.created revision).bounded revision := le_rfl
      refine ⟨h.sent, h.bounded_append hframe, ?_⟩
      apply h.delivers.send_mark
      nofun
  | @events header upTo hcreated hchanged hupTo =>
      have hframe : (Sent.events header upTo).bounded revision := hupTo
      refine ⟨hupTo, h.bounded_append hframe, ?_⟩
      apply h.delivers.send
      · intro r _ hr _
        exact ⟨upTo, rfl, hr⟩
      · nofun
  | @progress header hcreated hheader hsent =>
      have hframe : (Sent.progress header).bounded revision := hheader
      refine ⟨h.sent, h.bounded_append hframe, ?_⟩
      apply h.delivers.send_mark
      rintro _ ⟨⟩
      exact hsent
  | canceled isCreated header compactRevision =>
      have hframe : (Sent.canceled isCreated header compactRevision).bounded revision := trivial
      refine ⟨h.sent, h.bounded_append hframe, ?_⟩
      apply h.delivers.send_mark
      nofun
  | closed => exact ⟨h.sent, h.bounded, h.delivers⟩

/-- Reading a frame that carries no change after `floor`. -/
theorem read {rest : List Sent} (h : stream.Delivers commits revision floor)
    (hinbox : stream.inbox = frame :: rest) (hframe : ∀ r, floor < r → ¬ frames.Covers frame r) :
  Stream.Delivers commits revision floor { stream with inbox := rest }
  := by
  refine ⟨h.sent, ?_, ?_⟩
  · intro frame' hmem
    apply h.bounded
    rw [hinbox]
    exact List.mem_cons_of_mem _ hmem
  · have hdelivers := h.delivers
    rw [hinbox] at hdelivers
    exact hdelivers.read hframe

/-- What the revision of a frame tells that neither carries changes nor cancels the
stream. -/
theorem header {rest : List Sent} (h : stream.Delivers commits revision floor)
    (hinbox : stream.inbox = frame :: rest) (hcanceled : frame.frame.canceled = false)
    (hevents : frame.frame.events = false) :
  frame.frame.revision ≤ revision ∧ (∀ r, ¬ frames.Covers frame r) ∧
    (frame = .created frame.frame.revision ∨ Unchanged commits floor frame.frame.revision)
  := by
  have hdelivers := h.delivers
  rw [hinbox] at hdelivers
  have hbounded := h.bounded frame (by rw [hinbox]; exact List.mem_cons_self)
  cases frame with
  | created header => exact ⟨hbounded, nofun, .inl rfl⟩
  | events header upTo => cases hevents
  | progress header => exact ⟨hbounded, nofun, .inr (hdelivers.unchanged_mark rfl)⟩
  | canceled isCreated header compactRevision => cases hcanceled

end Stream.Delivers

/-! ### The invariant -/

/-- The revision up to which the snapshot reflects the changes, or will when the relist
that is going on ends. -/
def World.horizon (s : World urls) : ℕ :=
  match s.watcher.phase, s.reply with
  | .relisting _, none => s.revision
  | .relisting _, some snapshot => snapshot.revision
  | _, _ => s.listed

/-- What holds of a watcher whose pump has not ended. -/
structure Tracks (options : WatcherOptions) (commits : Commits) (s : World urls) : Prop where
  reflects : Reflects options commits s.listed s.watcher.outlet.current
  listed : s.listed ≤ s.watcher.revision
  revision : s.watcher.revision ≤ s.revision
  /-- The watcher is ahead of its snapshot by what a created frame has announced. -/
  ahead : ∀ r, s.listed < r → r ≤ s.watcher.revision → commits r ≠ none →
    s.watcher.phase.connected = true ∧ r ≤ s.announced
  reply : ∀ snapshot, s.reply = some snapshot → snapshot = snapshotAt commits snapshot.revision ∧
    s.watcher.revision ≤ snapshot.revision ∧ snapshot.revision ≤ s.revision
  stream : ∀ stream, s.stream = some stream →
    stream.Delivers commits s.revision s.horizon

/-- Every change that the created frame announced has been listed. -/
def AllListed (commits : Commits) (s : World urls) : Prop :=
  Unchanged commits s.listed s.announced

/-- The pump leaves an open stream, to wait for its next attempt. -/
def Interrupts (s s' : World urls) : Prop :=
  s.watcher.phase.connected = true ∧ s'.watcher.phase = .waiting

/-- A step that does not leave a stream before the changes that its created frame announced
have been listed. -/
def CarefulStep (options : WatcherOptions) (commits : Commits) (s s' : World urls) : Prop :=
  Step options commits s s' ∧ (Interrupts s s' → AllListed commits s)

/-- The invariant, until the pump ends. -/
def Invariant (options : WatcherOptions) (commits : Commits) (s : World urls) : Prop :=
  s.watcher.phase ≠ .ended → Tracks options commits s

variable {s : World urls}

theorem World.horizon_of_phase (h : ∀ canceled, s.watcher.phase ≠ .relisting canceled) :
  s.horizon = s.listed
  := by
  rw [horizon]
  split
  · rename_i canceled hphase _
    exact absurd hphase (h canceled)
  · rename_i canceled _ hphase _
    exact absurd hphase (h canceled)
  · rfl

variable {s' : World urls}

/-- The pump goes on without a stream. -/
theorem Tracks.detached (h : Tracks options commits s)
    (hwatcher : s'.watcher.revision = s.watcher.revision)
    (hcurrent : s'.watcher.outlet.current = s.watcher.outlet.current)
    (hrevision : s'.revision = s.revision) (hlisted : s'.listed = s.listed)
    (hunchanged : Unchanged commits s.listed s.watcher.revision) (hstream : s'.stream = none)
    (hreply : s'.reply = none) :
  Tracks options commits s'
  := by
  constructor
  case reflects =>
    rw [hlisted, hcurrent]
    exact h.reflects
  case listed =>
    rw [hlisted, hwatcher]
    exact h.listed
  case revision =>
    rw [hrevision, hwatcher]
    exact h.revision
  case ahead =>
    intro r hr hle hchange
    rw [hlisted] at hr
    rw [hwatcher] at hle
    exact absurd (hunchanged r hr hle) hchange
  case reply =>
    intro snapshot hsome
    rw [hreply] at hsome
    cases hsome
  case stream =>
    intro stream hsome
    rw [hstream] at hsome
    cases hsome

/-- What the pump does after a failure. -/
theorem Watcher.caught_spec (w : Watcher urls) (value : Thrown) :
  (w.caught value).phase = .ended ∨ w.caught value = { w with phase := .waiting }
  := by
  rw [caught]
  split
  · exact .inl rfl
  · split
    · exact .inr rfl
    · exact .inl rfl

/-- A failure of a pump that has no more to list. -/
theorem Tracks.caught (h : Tracks options commits s) (value : Thrown)
    (hunchanged : (s.watcher.caught value).phase = .waiting → Unchanged commits s.listed s.watcher.revision) :
  Invariant options commits (s.proceed (s.watcher.caught value))
  := by
  intro hphase
  obtain hended | hwaiting := s.watcher.caught_spec value
  · exact absurd hended hphase
  · rw [hwaiting] at hunchanged ⊢
    exact h.detached rfl rfl rfl rfl (hunchanged rfl) rfl rfl

theorem Tracks.unchanged (h : Tracks options commits s)
    (hphase : s.watcher.phase.connected = false) :
  Unchanged commits s.listed s.watcher.revision
  := by
  intro r hr hle
  by_contra hchange
  have hconnected := (h.ahead r hr hle hchange).1
  rw [hphase] at hconnected
  cases hconnected

/-- A failure on a stream that has delivered what its created frame announced. -/
theorem Tracks.interrupted (h : Tracks options commits s) (value : Thrown)
    (hconnected : s.watcher.phase.connected = true)
    (hlisted : Interrupts s (s.proceed (s.watcher.caught value)) → AllListed commits s) :
  Invariant options commits (s.proceed (s.watcher.caught value))
  := by
  apply h.caught
  intro hwaiting r hr hle
  by_contra hchange
  exact hchange (hlisted ⟨hconnected, hwaiting⟩ r hr (h.ahead r hr hle hchange).2)

/-! ### Steps of the pump -/

theorem Watcher.caught_registry (w : Watcher urls) (e : RegistryError) :
  (w.caught (.registry e)).phase = .ended
  := by
  rw [caught]
  split
  · rfl
  · rfl

theorem Watcher.nextFrame_spec (w : Watcher urls) :
  w.nextFrame.phase = .ended ∨ w.nextFrame = { w with phase := .reading }
  := by
  rw [nextFrame]
  split
  · exact .inl rfl
  · exact .inr rfl

theorem Watcher.nextConnection_spec (w : Watcher urls) :
  w.nextConnection.phase = .ended ∨ w.nextConnection = { w with phase := .opening }
  := by
  rw [nextConnection]
  split
  · exact .inl rfl
  · exact .inr rfl

theorem Tracks.admitted (h : Tracks options commits s) (first : WatchFrame)
    (hphase : s.watcher.phase = .opening) :
  Invariant options commits (s.proceed (s.watcher.admitted first))
  := by
  intro hended
  have hconnected : s.watcher.phase.connected = false := by rw [hphase]; rfl
  have hhorizon : s.horizon = s.listed := World.horizon_of_phase (by simp [hphase])
  rw [Watcher.admitted] at hended ⊢
  split at hended
  · exact absurd (Watcher.caught_registry _ _) hended
  · split at hended
    · exact absurd (Watcher.caught_registry _ _) hended
    · rename_i hfirst hcanceled
      rw [if_neg hfirst, if_neg hcanceled]
      obtain hended' | hreading := s.watcher.nextFrame_spec
      · exact absurd hended' hended
      · rw [hreading]
        constructor
        case reflects => exact h.reflects
        case listed => exact h.listed
        case revision => exact h.revision
        case ahead =>
          intro r hr hle hchange
          exact absurd (h.unchanged hconnected r hr hle) hchange
        case reply => nofun
        case stream =>
          intro stream hstream
          have hdelivers := h.stream stream hstream
          rw [hhorizon] at hdelivers
          exact hdelivers

theorem World.le_announce (s : World urls) (frame : Sent) :
  s.announced ≤ s.announce frame
  := by
  cases frame with
  | created header => exact le_max_left _ _
  | _ => exact le_rfl

variable {stream : Stream} {rest : List Sent}

/-- A frame is read that neither carries changes nor cancels the stream. -/
theorem Tracks.advance (h : Tracks options commits s) {retryMs : ℕ}
    (hphase : s.watcher.phase = .reading) (hstream : s.stream = some stream)
    (hinbox : stream.inbox = frame :: rest) (hcanceled : frame.frame.canceled = false)
    (hevents : frame.frame.events = false) :
  Tracks options commits (World.proceed
    { s with stream := some { stream with inbox := rest }, announced := s.announce frame }
    ⟨s.watcher.outlet,
      if frame.frame.revision > s.watcher.revision then frame.frame.revision
        else s.watcher.revision, retryMs, .reading⟩)
  := by
  have hhorizon : s.horizon = s.listed := World.horizon_of_phase (by simp [hphase])
  have hdelivers := h.stream stream hstream
  rw [hhorizon] at hdelivers
  obtain ⟨hheader, hcovers, hannounce⟩ := hdelivers.header hinbox hcanceled hevents
  have hannounced : ∀ r, s.listed < r → r ≤ frame.frame.revision → commits r ≠ none →
      r ≤ s.announce frame := by
    intro r hr hle hchange
    obtain hcreated | hunchanged := hannounce
    · rw [hcreated]
      exact hle.trans (le_max_right _ _)
    · exact absurd (hunchanged r hr hle) hchange
  constructor
  case reflects => exact h.reflects
  case listed =>
    apply h.listed.trans
    dsimp only [World.proceed]
    split
    · rename_i hgt
      exact hgt.le
    · exact le_rfl
  case revision =>
    dsimp only [World.proceed]
    split
    · exact hheader
    · exact h.revision
  case ahead =>
    intro r hr hle hchange
    refine ⟨rfl, ?_⟩
    dsimp only [World.proceed] at hle
    split at hle
    · exact hannounced r hr hle hchange
    · exact (h.ahead r hr hle hchange).2.trans (s.le_announce frame)
  case reply => nofun
  case stream =>
    intro stream' hstream'
    cases hstream'
    exact hdelivers.read hinbox fun r _ => hcovers r

variable {canceled : Bool}

/-- A frame is read that makes the watcher list the records again. -/
theorem Tracks.relist (h : Tracks options commits s) (hphase : s.watcher.phase = .reading)
    (hstream : s.stream = some stream) (hinbox : stream.inbox = frame :: rest) :
  Tracks options commits (World.proceed
    { s with stream := some { stream with inbox := rest }, announced := s.announce frame }
    { s.watcher with phase := .relisting canceled })
  := by
  have hdelivers := h.stream stream hstream
  have hle : s.horizon ≤ s.revision := by
    rw [World.horizon_of_phase (by simp [hphase])]
    exact h.listed.trans h.revision
  have hbounded : ∀ frame' ∈ stream.inbox, frame'.bounded s.revision := hdelivers.bounded
  constructor
  case reflects => exact h.reflects
  case listed => exact h.listed
  case revision => exact h.revision
  case ahead =>
    intro r hr hle' hchange
    exact ⟨rfl, (h.ahead r hr hle' hchange).2.trans (s.le_announce frame)⟩
  case reply => nofun
  case stream =>
    intro stream' hstream'
    cases hstream'
    apply (hdelivers.mono le_rfl hle).read hinbox
    intro r hr hcovers
    obtain ⟨upTo, hcarries, hr'⟩ := hcovers
    cases frame with
    | events header upTo' =>
        cases hcarries
        have hupTo : upTo ≤ s.revision := hbounded (.events header upTo) (by simp [hinbox])
        omega
    | _ => cases hcarries

theorem Tracks.frameRead (h : Tracks options commits s) (hphase : s.watcher.phase = .reading)
    (hstream : s.stream = some stream) (hinbox : stream.inbox = frame :: rest) :
  Invariant options commits (World.proceed
    { s with stream := some { stream with inbox := rest }, announced := s.announce frame }
    (s.watcher.frameRead options frame.frame))
  := by
  intro hended
  rw [Watcher.frameRead] at hended ⊢
  by_cases hcanceled : frame.frame.canceled = true
  · rw [if_pos hcanceled] at hended ⊢
    split at hended
    · exact absurd (Watcher.caught_registry _ _) hended
    · rename_i hcompact
      rw [if_neg hcompact]
      exact h.relist hphase hstream hinbox
  · rw [if_neg hcanceled] at hended ⊢
    by_cases hevents : frame.frame.events = true
    · rw [if_pos hevents]
      exact h.relist hphase hstream hinbox
    · rw [if_neg hevents] at hended ⊢
      obtain hended' | hreading := Watcher.nextFrame_spec _
      · exact absurd hended' hended
      · rw [hreading]
        exact h.advance hphase hstream hinbox (by simpa using hcanceled) (by simpa using hevents)

/-- A relist ends. -/
theorem Tracks.relisted (h : Tracks options commits s) {snapshot : RangeSnapshot}
    (hphase : s.watcher.phase = .relisting canceled) (hreply : s.reply = some snapshot) :
  Invariant options commits (World.proceed { s with listed := snapshot.revision }
    (s.watcher.relisted options canceled snapshot))
  := by
  intro hended
  obtain ⟨hsnapshot, hle, hrevision⟩ := h.reply snapshot hreply
  have hhorizon : s.horizon = snapshot.revision := by
    rw [World.horizon, hphase, hreply]
  rw [Watcher.relisted] at hended ⊢
  split at hended
  · exact absurd (Watcher.caught_registry _ _) hended
  · rename_i next hnext
    -- what is listed is what the watcher reflects
    have hreflects : Reflects options commits snapshot.revision next := by
      rw [Reflects, ← hsnapshot]
      exact hnext
    cases canceled with
    | true =>
        rw [if_pos rfl] at hended ⊢
        obtain hended' | hopening := Watcher.nextConnection_spec
          { s.watcher with revision := snapshot.revision, outlet := s.watcher.outlet.publish next }
        · exact absurd hended' hended
        · rw [hopening]
          constructor
          case reflects =>
            dsimp only [World.proceed]
            rw [Outlet.current_publish]
            exact hreflects
          case listed => exact le_rfl
          case revision => exact hrevision
          case ahead =>
            intro r hr hle'
            exact absurd hle' (not_le.mpr hr)
          case reply => nofun
          case stream => nofun
    | false =>
        rw [if_neg (by simp)] at hended ⊢
        obtain hended' | hreading := Watcher.nextFrame_spec
          { s.watcher with
            revision := snapshot.revision
            outlet := s.watcher.outlet.publish next
            retryMs := options.retryInitialMs }
        · exact absurd hended' hended
        · rw [hreading]
          constructor
          case reflects =>
            dsimp only [World.proceed]
            rw [Outlet.current_publish]
            exact hreflects
          case listed => exact le_rfl
          case revision => exact hrevision
          case ahead =>
            intro r hr hle'
            exact absurd hle' (not_le.mpr hr)
          case reply => nofun
          case stream =>
            intro stream hstream
            have hdelivers := h.stream stream hstream
            rw [hhorizon] at hdelivers
            exact hdelivers

/-! ### Runs -/

theorem Tracks.commit (h : Tracks options commits s) :
  Tracks options commits { s with revision := s.revision + 1 }
  := by
  constructor
  case reflects => exact h.reflects
  case listed => exact h.listed
  case revision => exact h.revision.trans (Nat.le_succ _)
  case ahead => exact h.ahead
  case reply =>
    intro snapshot hreply
    obtain ⟨hsnapshot, hle, hrevision⟩ := h.reply snapshot hreply
    exact ⟨hsnapshot, hle, hrevision.trans (Nat.le_succ _)⟩
  case stream =>
    intro stream hstream
    apply (h.stream stream hstream).mono (Nat.le_succ _)
    simp only [World.horizon]
    split
    · exact Nat.le_succ _
    · exact le_rfl
    · exact le_rfl

theorem Tracks.opened (h : Tracks options commits s) (hphase : s.watcher.phase = .opening) :
  Tracks options commits
    { s with
      stream := some ⟨s.watcher.revision + 1, false, s.watcher.revision, [], false⟩
      announced := 0 }
  := by
  have hunchanged := h.unchanged (by rw [hphase]; rfl)
  constructor
  case reflects => exact h.reflects
  case listed => exact h.listed
  case revision => exact h.revision
  case ahead =>
    intro r hr hle hchange
    exact absurd (hunchanged r hr hle) hchange
  case reply => exact h.reply
  case stream =>
    rintro _ ⟨⟩
    rw [World.horizon_of_phase (by simp [hphase])]
    exact ⟨h.revision, nofun, delivers_nil hunchanged⟩

theorem Tracks.listed_step (h : Tracks options commits s)
    (hphase : s.watcher.phase = .relisting canceled) :
  Tracks options commits { s with reply := some (snapshotAt commits s.revision) }
  := by
  constructor
  case reflects => exact h.reflects
  case listed => exact h.listed
  case revision => exact h.revision
  case ahead => exact h.ahead
  case reply =>
    rintro _ ⟨⟩
    exact ⟨rfl, h.revision, le_rfl⟩
  case stream =>
    intro stream hstream
    apply (h.stream stream hstream).mono le_rfl
    cases hreply : s.reply with
    | none => simp [World.horizon, hphase, hreply, snapshotAt]
    | some snapshot =>
        simp only [World.horizon, hphase, hreply]
        exact (h.reply snapshot hreply).2.2

/-- A careful step keeps the invariant. -/
theorem Invariant.step (h : Invariant options commits s)
    (hstep : CarefulStep options commits s s') :
  Invariant options commits s'
  := by
  obtain ⟨hstep, hlisted⟩ := hstep
  cases hstep with
  | commit =>
      intro hended
      exact (h hended).commit
  | opened hphase hstream =>
      intro hended
      exact (h hended).opened hphase
  | openFailed hphase value =>
      have htracks := h (by simp [hphase])
      apply htracks.caught value
      intro _
      exact htracks.unchanged (by rw [hphase]; rfl)
  | sends hstream hopen hsends =>
      intro hended
      have htracks := h hended
      refine ⟨htracks.reflects, htracks.listed, htracks.revision, htracks.ahead, htracks.reply, ?_⟩
      rintro _ ⟨⟩
      exact (htracks.stream _ hstream).sends hsends
  | admitted hphase hstream hinbox => exact (h (by simp [hphase])).admitted _ hphase
  | frameRead hphase hstream hinbox =>
      exact (h (by simp [hphase])).frameRead hphase hstream hinbox
  | streamEnded hphase hstream hinbox hclosed =>
      obtain hphase | hphase := hphase
      · have htracks := h (by simp [hphase])
        apply htracks.caught
        intro _
        exact htracks.unchanged (by rw [hphase]; rfl)
      · exact (h (by simp [hphase])).interrupted _ (by rw [hphase]; rfl) hlisted
  | streamBroke hphase value | relistFailed hphase value =>
      exact (h (by simp [hphase])).interrupted _ (by rw [hphase]; rfl) hlisted
  | listed hphase =>
      intro hended
      exact (h hended).listed_step hphase
  | relisted hphase hreply => exact (h (by simp [hphase])).relisted hphase hreply
  | waited hphase =>
      have htracks := h (by simp [hphase])
      intro hended
      have hunchanged := htracks.unchanged (by rw [hphase]; rfl)
      have hdelivers := htracks.stream
      rw [World.horizon_of_phase (by simp [hphase])] at hdelivers
      rw [Watcher.waited] at hended ⊢
      obtain hended' | hopening := Watcher.nextConnection_spec
        { s.watcher with retryMs := min options.retryMaximumMs (s.watcher.retryMs * 2) }
      · exact absurd hended' hended
      · rw [hopening]
        refine ⟨htracks.reflects, htracks.listed, htracks.revision, ?_, htracks.reply, hdelivers⟩
        intro r hr hle hchange
        exact absurd (hunchanged r hr hle) hchange
  | aborted haborted =>
      intro hended
      exact absurd rfl hended
  | call call =>
      intro hended
      have htracks := h hended
      refine ⟨?_, htracks.listed, htracks.revision, htracks.ahead, htracks.reply, htracks.stream⟩
      dsimp only
      rw [Outlet.current_perform]
      exact htracks.reflects

theorem Invariant.run (h : Invariant options commits s)
    (hrun : ReflTransGen (CarefulStep options commits) s s') :
  Invariant options commits s'
  := by
  induction hrun with
  | refl => exact h
  | tail _ hstep ih => exact ih.step hstep

theorem Starts.invariant (h : Starts options commits s) :
  Invariant options commits s
  := by
  intro _
  obtain ⟨revision, initialValues, hinitial⟩ := h
  constructor
  case reflects => exact hinitial
  case listed => exact le_rfl
  case revision => exact le_rfl
  case ahead =>
    intro r hr hle
    exact absurd hle (not_le.mpr hr)
  case reply => nofun
  case stream => nofun

end Registry.Etcd
