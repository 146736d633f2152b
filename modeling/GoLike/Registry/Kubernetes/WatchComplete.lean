import GoLike.Registry.Kubernetes.Watch

/-!
# What the Kubernetes watcher guarantees

The watcher opens every watch from a version that its snapshot reflects. Its pump ends only
when the watcher is stopped or has failed, as long as no list fails that the handler of a
failure waits for: such a list makes the pump throw, and calls wait without a pump.
-/

open Store Relation ChangeLog

namespace Registry.Kubernetes

variable {urls : UrlParser} {options : WatcherOptions urls} {commits : Commits}

/-! ### Instances at a revision -/

/-- The snapshot is that of the instances of the service at a revision. -/
def Reflects (options : WatcherOptions urls) (commits : Commits) (r : ℕ)
    (current : Snapshot urls) : Prop :=
  serviceInstances options.decodeManagedSlice options.serviceName (listAt commits r) = .ok current

theorem Reflects.unchanged {a b : ℕ} {current : Snapshot urls}
    (h : Reflects options commits a current) (hle : a ≤ b) (hunchanged : Unchanged commits a b) :
  Reflects options commits b current
  := by
  have hitems : stateAt [] commits b = stateAt [] commits a := stateAt_unchanged hle hunchanged
  rw [Reflects] at h ⊢
  rw [← h]
  simp only [serviceInstances, decodeSliceList, listAt, hitems]

/-! ### Streams -/

/-- The stream delivers the changes after `floor`, and its bookmarks are of revisions of the
store. -/
structure Stream.Delivers (commits : Commits) (revision floor : ℕ) (stream : Stream) : Prop where
  bounded : ∀ frame ∈ stream.inbox, ∀ r, frames.marks frame = some r → r ≤ revision
  delivers : ChangeLog.Delivers frames commits floor stream.sent stream.inbox

namespace Stream.Delivers

variable {revision floor : ℕ} {stream : Stream}

theorem mono {revision' : ℕ} (h : stream.Delivers commits revision floor)
    (hrevision : revision ≤ revision') :
  stream.Delivers commits revision' floor
  := by
  refine ⟨?_, h.delivers⟩
  intro frame hmem r hmark
  exact (h.bounded frame hmem r hmark).trans hrevision

theorem bounded_append (h : stream.Delivers commits revision floor) {frame : Sent}
    (hframe : ∀ r, frames.marks frame = some r → r ≤ revision) :
  ∀ frame' ∈ stream.inbox ++ [frame], ∀ r, frames.marks frame' = some r → r ≤ revision
  := by
  intro frame' hmem
  obtain hmem | hmem := List.mem_append.mp hmem
  · exact h.bounded frame' hmem
  · rw [List.mem_singleton.mp hmem]
    exact hframe

/-- What the server does keeps what the stream delivers. -/
theorem sends {stream' : Stream} (h : stream.Delivers commits revision floor)
    (hsends : Sends commits revision stream stream') :
  stream'.Delivers commits revision floor
  := by
  cases hsends with
  | @changed r hnext hsent hchange hrevision =>
      have hframe : ∀ r', frames.marks (.changed r) = some r' → r' ≤ revision := nofun
      refine ⟨h.bounded_append hframe, ?_⟩
      apply h.delivers.send
      · intro r' _ hle _
        exact ⟨r, rfl, hle⟩
      · nofun
  | @bookmark version hsent =>
      have hframe : ∀ r', frames.marks (.bookmark version) = some r' → r' ≤ revision :=
        fun r' hmark => (hsent r' hmark).1
      refine ⟨h.bounded_append hframe, ?_⟩
      apply h.delivers.send_mark
      intro mark hmark
      exact (hsent mark hmark).2
  | gone =>
      have hframe : ∀ r', frames.marks .gone = some r' → r' ≤ revision := nofun
      refine ⟨h.bounded_append hframe, ?_⟩
      apply h.delivers.send_mark
      nofun
  | invalid e =>
      have hframe : ∀ r', frames.marks (.invalid e) = some r' → r' ≤ revision := nofun
      refine ⟨h.bounded_append hframe, ?_⟩
      apply h.delivers.send_mark
      nofun
  | closed => exact ⟨h.bounded, h.delivers⟩

/-- A bookmark is read. -/
theorem bookmark {version : Option ℕ} {rest : List Sent}
    (h : stream.Delivers commits revision floor)
    (hinbox : stream.inbox = .bookmark version :: rest) :
  (∀ r, version = some r → r ≤ revision ∧ Unchanged commits floor r) ∧
    Stream.Delivers commits revision floor { stream with inbox := rest }
  := by
  obtain ⟨hbounded, hdelivers⟩ := h
  rw [hinbox] at hbounded hdelivers
  refine ⟨?_, ?_, ?_⟩
  · intro r hversion
    exact ⟨hbounded _ List.mem_cons_self r hversion, hdelivers.unchanged_mark hversion⟩
  · intro frame hmem
    exact hbounded frame (List.mem_cons_of_mem _ hmem)
  · apply hdelivers.read
    rintro r _ ⟨upTo, hcarries, -⟩
    cases hcarries

end Stream.Delivers

/-! ### The invariant -/

/-- What holds of a watcher that has not ended. -/
structure Tracks (options : WatcherOptions urls) (commits : Commits) (s : World urls) : Prop where
  reflects : Reflects options commits s.listed s.watcher.outlet.current
  listed : s.listed ≤ s.revision
  revision : s.watcher.revision ≤ s.revision
  ahead : Unchanged commits s.listed s.watcher.revision
  reply : ∀ list, s.reply = some list → list = listAt commits list.resourceVersion ∧
    list.resourceVersion ≤ s.revision
  stream : ∀ stream, s.stream = some stream → stream.Delivers commits s.revision s.listed

/-- The pump throws. -/
def Throws (s s' : World urls) : Prop :=
  s.watcher.phase = .recovering ∧ s'.watcher.phase = .rejected

/-- A step in which no list of the handler fails, unless the watcher is stopped or has
failed. -/
def CarefulStep (options : WatcherOptions urls) (commits : Commits) (s s' : World urls) : Prop :=
  Step options commits s s' ∧ (Throws s s' → s.watcher.outlet.aborted = true)

/-- The invariant of the watcher. -/
structure Invariant (options : WatcherOptions urls) (commits : Commits) (s : World urls) :
    Prop where
  tracks : s.watcher.phase.final = false → Tracks options commits s
  settled : s.watcher.outlet.Settled
  ends : s.watcher.phase.admitted = true → s.watcher.phase.final = true →
    s.watcher.outlet.aborted = true

variable {s : World urls} {w : Watcher urls}

/-- The watcher goes on from what it has listed. -/
theorem Tracks.proceed (h : Tracks options commits s)
    (hcurrent : w.outlet.current = s.watcher.outlet.current)
    (hrevision : w.revision = s.watcher.revision) (hphase : w.phase ≠ .reading) :
  Tracks options commits (s.proceed w)
  := by
  constructor
  case reflects =>
    dsimp only [World.proceed]
    rw [hcurrent]
    exact h.reflects
  case listed => exact h.listed
  case revision =>
    dsimp only [World.proceed]
    rw [hrevision]
    exact h.revision
  case ahead =>
    dsimp only [World.proceed]
    rw [hrevision]
    exact h.ahead
  case reply => nofun
  case stream =>
    dsimp only [World.proceed]
    rw [if_neg hphase]
    nofun

/-- What the handler of a failure does. -/
theorem Watcher.caught_spec (w : Watcher urls) (value : Thrown) :
  w.outlet.Evolves (w.caught value).outlet ∧ (w.caught value).revision = w.revision ∧
    (w.caught value).phase ≠ .reading ∧ (w.caught value).phase ≠ .rejected ∧
    ((w.caught value).phase.final = true → (w.caught value).outlet.aborted = true) ∧
    (w.caught value).outlet.current = w.outlet.current
  := by
  rw [caught]
  split
  · rename_i haborted
    exact ⟨.refl _, rfl, nofun, nofun, fun _ => haborted, rfl⟩
  · split
    · exact ⟨.refl _, rfl, nofun, nofun, nofun, rfl⟩
    · split
      · exact ⟨.refl _, rfl, nofun, nofun, nofun, rfl⟩
      · rename_i haborted _ _
        refine ⟨Outlet.evolves_fail _ _, rfl, nofun, nofun, ?_, Outlet.current_fail _ _⟩
        intro _
        rw [Outlet.aborted, Bool.or_eq_true] at haborted
        dsimp only
        rw [Outlet.fail, if_neg haborted]
        rfl

/-! ### Steps -/

theorem Watcher.caught_registry (w : Watcher urls) (e : RegistryError) :
  (w.caught (.registry e)).phase = .ended
  := by
  rw [caught]
  split
  · rfl
  · rfl

theorem Tracks.caught (h : Tracks options commits s) (value : Thrown) :
  Tracks options commits (s.proceed (s.watcher.caught value))
  := by
  obtain ⟨-, hrevision, hreading, -, -, hcurrent⟩ := s.watcher.caught_spec value
  exact h.proceed hcurrent hrevision hreading

theorem Watcher.nextConnection_spec (w : Watcher urls) :
  w.nextConnection.phase ≠ .reading ∧ w.nextConnection.phase ≠ .rejected ∧
    (w.nextConnection.phase.final = true → w.outlet.aborted = true)
  := by
  rw [nextConnection]
  split
  · rename_i haborted
    exact ⟨nofun, nofun, fun _ => haborted⟩
  · exact ⟨nofun, nofun, nofun⟩

/-- A list has been read. -/
theorem Tracks.listed_step (h : Tracks options commits s) {list : SliceList} {next : Snapshot urls}
    (hreply : s.reply = some list)
    (hnext : serviceInstances options.decodeManagedSlice options.serviceName list = .ok next)
    (hcurrent : w.outlet.current = next) (hrevision : w.revision = list.resourceVersion)
    (hphase : w.phase ≠ .reading) :
  Tracks options commits (World.proceed { s with listed := list.resourceVersion } w)
  := by
  obtain ⟨hlist, hle⟩ := h.reply list hreply
  constructor
  case reflects =>
    dsimp only [World.proceed]
    rw [Reflects, ← hlist, hnext, hcurrent]
  case listed => exact hle
  case revision =>
    dsimp only [World.proceed]
    rw [hrevision]
    exact hle
  case ahead =>
    dsimp only [World.proceed]
    rw [hrevision]
    exact .refl _
  case reply => nofun
  case stream =>
    dsimp only [World.proceed]
    rw [if_neg hphase]
    nofun

theorem Watcher.listed_spec (w : Watcher urls) (list : SliceList) (next : Snapshot urls) :
  w.outlet.Evolves (w.listed options list next).outlet ∧
    (w.listed options list next).outlet.current = next ∧
    (w.listed options list next).revision = list.resourceVersion ∧
    (w.listed options list next).phase ≠ .reading ∧
    (w.listed options list next).phase ≠ .rejected ∧
    ((w.listed options list next).phase.final = true →
      (w.listed options list next).outlet.aborted = true)
  := by
  obtain ⟨hreading, hrejected, hfinal⟩ := Watcher.nextConnection_spec
    { w with
      outlet := w.outlet.publish next
      revision := list.resourceVersion
      retryMs := options.retryInitialMs }
  exact ⟨Outlet.evolves_publish _ _, Outlet.current_publish _ _, rfl, hreading, hrejected, hfinal⟩

/-- A stream is opened from the version of the watcher. -/
theorem Tracks.opened (h : Tracks options commits s)
    (hcurrent : w.outlet.current = s.watcher.outlet.current)
    (hrevision : w.revision = s.watcher.revision) :
  Tracks options commits
    (World.proceed { s with stream := some ⟨s.watcher.revision, [], false⟩ } w)
  := by
  constructor
  case reflects =>
    dsimp only [World.proceed]
    rw [hcurrent]
    exact h.reflects
  case listed => exact h.listed
  case revision =>
    dsimp only [World.proceed]
    rw [hrevision]
    exact h.revision
  case ahead =>
    dsimp only [World.proceed]
    rw [hrevision]
    exact h.ahead
  case reply => nofun
  case stream =>
    intro stream hstream
    dsimp only [World.proceed] at hstream
    split at hstream
    · cases hstream
      exact ⟨nofun, delivers_nil h.ahead⟩
    · cases hstream

/-- A frame is read: a change makes the watcher leave the stream, and a bookmark moves it to
a version whose changes it has seen. -/
theorem Tracks.frameRead (h : Tracks options commits s) {stream : Stream} {sent : Sent}
    {rest : List Sent} {frame : WatchFrame} (hstream : s.stream = some stream)
    (hinbox : stream.inbox = sent :: rest) (hframe : sent.frame = .ok frame) :
  Tracks options commits (World.proceed { s with stream := some { stream with inbox := rest } }
    (s.watcher.frameRead options frame))
  := by
  cases sent with
  | changed r =>
      cases hframe
      rw [Watcher.frameRead, if_pos rfl]
      exact ⟨h.reflects, h.listed, h.revision, h.ahead, nofun, nofun⟩
  | bookmark version =>
      cases hframe
      obtain ⟨hversion, hdelivers⟩ := (h.stream stream hstream).bookmark hinbox
      rw [Watcher.frameRead, if_neg (by simp)]
      refine ⟨h.reflects, h.listed, ?_, ?_, nofun, ?_⟩
      · cases version with
        | none => exact h.revision
        | some r => exact (hversion r rfl).1
      · cases version with
        | none => exact h.ahead
        | some r => exact (hversion r rfl).2
      · intro stream' hstream'
        dsimp only [World.proceed] at hstream'
        split at hstream'
        · cases hstream'
          exact hdelivers
        · cases hstream'
  | gone | invalid => cases hframe

theorem Watcher.frameRead_spec (w : Watcher urls) (frame : WatchFrame) :
  (w.frameRead options frame).outlet = w.outlet ∧ (w.frameRead options frame).phase ≠ .rejected ∧
    ((w.frameRead options frame).phase.final = true → w.outlet.aborted = true)
  := by
  rw [frameRead]
  split
  · exact ⟨rfl, nofun, nofun⟩
  · refine ⟨rfl, ?_⟩
    rw [nextFrame]
    dsimp only
    split
    · rename_i haborted
      exact ⟨nofun, fun _ => haborted⟩
    · exact ⟨nofun, nofun⟩

variable {s' : World urls}

/-- Every step keeps what the consumer relies on. -/
theorem Step.evolves (h : Step options commits s s') :
  s.watcher.outlet.Evolves s'.watcher.outlet
  := by
  cases h with
  | commit | admissionFailed | opened | sends | streamEnded | listed | readmissionFailed
  | recoveryFailed | waited | aborted => exact .refl _
  | admitted hphase terminal =>
      dsimp only [World.proceed]
      rw [Watcher.completeAdmission]
      split
      · exact .refl _
      · exact Outlet.evolves_of_eq rfl rfl rfl rfl rfl
  | openFailed hphase value | streamBroke hphase value | relistFailed hphase value =>
      exact (s.watcher.caught_spec value).1
  | frameRead hphase hstream hinbox hframe =>
      dsimp only [World.proceed]
      rw [(Watcher.frameRead_spec _ _).1]
      exact .refl _
  | frameFailed hphase hstream hinbox hframe => exact (s.watcher.caught_spec _).1
  | readmitted hphase hreply =>
      dsimp only [World.proceed]
      rw [Watcher.readmitted]
      split
      · exact .refl _
      · exact Outlet.evolves_of_eq rfl rfl rfl rfl rfl
  | relisted hphase hreply =>
      dsimp only [World.proceed]
      rw [Watcher.relisted]
      split
      · exact (s.watcher.caught_spec _).1
      · exact (s.watcher.listed_spec _ _).1
  | recovered hphase hreply =>
      dsimp only [World.proceed]
      rw [Watcher.recovered]
      split
      · exact .refl _
      · exact (s.watcher.listed_spec _ _).1
  | call hphase call => exact s.watcher.outlet.evolves_perform call

/-- Every step of a watcher keeps track of what it reflects. -/
theorem Tracks.step (h : s.watcher.phase.final = false → Tracks options commits s)
    (hstep : Step options commits s s') :
  s'.watcher.phase.final = false → Tracks options commits s'
  := by
  intro hfinal
  cases hstep with
  | commit =>
      have htracks := h hfinal
      refine ⟨htracks.reflects, htracks.listed.trans (Nat.le_succ _),
        htracks.revision.trans (Nat.le_succ _), htracks.ahead, ?_, ?_⟩
      · intro list hreply
        obtain ⟨hlist, hle⟩ := htracks.reply list hreply
        exact ⟨hlist, hle.trans (Nat.le_succ _)⟩
      · intro stream hstream
        exact (htracks.stream stream hstream).mono (Nat.le_succ _)
  | admitted hphase terminal =>
      apply (h (by rw [hphase]; rfl)).opened
      · rw [Watcher.completeAdmission]
        split
        · rfl
        · rfl
      · rw [Watcher.completeAdmission]
        split
        · rfl
        · rfl
  | admissionFailed hphase value =>
      refine (h (by rw [hphase]; rfl)).proceed ?_ ?_ ?_
      · rfl
      · rfl
      · rw [Watcher.admissionFailed]
        dsimp only
        split
        · nofun
        · nofun
  | opened hphase => exact (h (by rw [hphase]; rfl)).opened rfl rfl
  | openFailed hphase value | streamBroke hphase value | relistFailed hphase value =>
      exact (h (by rw [hphase]; rfl)).caught value
  | sends hstream hopen hsends =>
      have htracks := h hfinal
      refine ⟨htracks.reflects, htracks.listed, htracks.revision, htracks.ahead, htracks.reply, ?_⟩
      rintro _ ⟨⟩
      exact (htracks.stream _ hstream).sends hsends
  | frameRead hphase hstream hinbox hframe =>
      exact (h (by rw [hphase]; rfl)).frameRead hstream hinbox hframe
  | frameFailed hphase hstream hinbox hframe => exact (h (by rw [hphase]; rfl)).caught _
  | streamEnded hphase hstream hinbox hclosed | waited hphase =>
      refine (h (by rw [hphase]; rfl)).proceed ?_ ?_ ?_
      · rfl
      · rfl
      · exact (Watcher.nextConnection_spec _).1
  | listed hphase =>
      have htracks := h hfinal
      refine ⟨htracks.reflects, htracks.listed, htracks.revision, htracks.ahead, ?_, htracks.stream⟩
      rintro _ ⟨⟩
      exact ⟨rfl, le_rfl⟩
  | readmitted hphase hreply =>
      have htracks := h (by rw [hphase]; rfl)
      dsimp only [World.proceed] at hfinal
      rw [Watcher.readmitted] at hfinal ⊢
      split at hfinal
      · cases hfinal
      · rename_i next hnext
        exact htracks.listed_step hreply hnext rfl rfl nofun
  | readmissionFailed | recoveryFailed | aborted => cases hfinal
  | relisted hphase hreply =>
      have htracks := h (by rw [hphase]; rfl)
      dsimp only [World.proceed] at hfinal
      rw [Watcher.relisted] at hfinal ⊢
      split at hfinal
      · rw [Watcher.caught_registry] at hfinal
        cases hfinal
      · rename_i next hnext
        obtain ⟨-, hcurrent, hrevision, hreading, -, -⟩ :=
          Watcher.listed_spec s.watcher _ next
        exact htracks.listed_step hreply hnext hcurrent hrevision hreading
  | recovered hphase hreply =>
      have htracks := h (by rw [hphase]; rfl)
      dsimp only [World.proceed] at hfinal
      rw [Watcher.recovered] at hfinal ⊢
      split at hfinal
      · cases hfinal
      · rename_i next hnext
        obtain ⟨-, hcurrent, hrevision, hreading, -, -⟩ :=
          Watcher.listed_spec s.watcher _ next
        exact htracks.listed_step hreply hnext hcurrent hrevision hreading
  | call hphase call =>
      have htracks := h hfinal
      refine ⟨?_, htracks.listed, htracks.revision, htracks.ahead, htracks.reply, htracks.stream⟩
      dsimp only
      rw [Outlet.current_perform]
      exact htracks.reflects

theorem Invariant.ends_step (h : Invariant options commits s)
    (hstep : CarefulStep options commits s s') (hadmitted : s'.watcher.phase.admitted = true)
    (hfinal : s'.watcher.phase.final = true) :
  s'.watcher.outlet.aborted = true
  := by
  obtain ⟨hstep, hthrows⟩ := hstep
  cases hstep with
  | commit | sends | listed => exact h.ends hadmitted hfinal
  | admitted hphase terminal =>
      dsimp only [World.proceed] at hadmitted hfinal
      rw [Watcher.completeAdmission] at hadmitted hfinal
      split at hadmitted
      · cases hadmitted
      · rename_i hterminal
        rw [if_neg hterminal] at hfinal
        cases hfinal
  | admissionFailed hphase value =>
      dsimp only [World.proceed, Watcher.admissionFailed] at hadmitted
      split at hadmitted
      · cases hadmitted
      · cases hadmitted
  | opened hphase => cases hfinal
  | openFailed hphase value | streamBroke hphase value | relistFailed hphase value =>
      exact (s.watcher.caught_spec value).2.2.2.2.1 hfinal
  | frameRead hphase hstream hinbox hframe =>
      obtain ⟨houtlet, -, haborted⟩ := Watcher.frameRead_spec s.watcher _
      dsimp only [World.proceed]
      rw [houtlet]
      exact haborted hfinal
  | frameFailed hphase hstream hinbox hframe =>
      exact (s.watcher.caught_spec _).2.2.2.2.1 hfinal
  | streamEnded hphase hstream hinbox hclosed =>
      exact (Watcher.nextConnection_spec _).2.2 hfinal
  | readmitted hphase hreply =>
      dsimp only [World.proceed] at hadmitted
      rw [Watcher.readmitted] at hadmitted
      split at hadmitted
      · cases hadmitted
      · cases hadmitted
  | readmissionFailed hphase => cases hadmitted
  | relisted hphase hreply =>
      dsimp only [World.proceed] at hfinal ⊢
      rw [Watcher.relisted] at hfinal ⊢
      split at hfinal
      · exact (s.watcher.caught_spec _).2.2.2.2.1 hfinal
      · exact (Watcher.listed_spec s.watcher _ _).2.2.2.2.2 hfinal
  | @recovered list hphase hreply =>
      have hstep : Step options commits s (World.proceed { s with listed := list.resourceVersion }
          (s.watcher.recovered options list)) := .recovered hphase hreply
      cases hnext : serviceInstances options.decodeManagedSlice options.serviceName list with
      | error e =>
          have hrejected : (s.watcher.recovered options list).phase = .rejected := by
            rw [Watcher.recovered, hnext]
          exact hstep.evolves.aborted (hthrows ⟨hphase, hrejected⟩)
      | ok next =>
          dsimp only [World.proceed] at hfinal ⊢
          rw [Watcher.recovered, hnext] at hfinal ⊢
          exact (Watcher.listed_spec s.watcher _ _).2.2.2.2.2 hfinal
  | recoveryFailed hphase => exact hthrows ⟨hphase, rfl⟩
  | waited hphase => exact (Watcher.nextConnection_spec _).2.2 hfinal
  | aborted hphase hfinal' haborted => exact haborted
  | call hphase call =>
      exact (s.watcher.outlet.evolves_perform call).aborted (h.ends hadmitted hfinal)

/-- A careful step keeps the invariant. -/
theorem Invariant.step (h : Invariant options commits s)
    (hstep : CarefulStep options commits s s') :
  Invariant options commits s'
  := ⟨Tracks.step h.tracks hstep.1, hstep.1.evolves.settled h.settled, h.ends_step hstep⟩

theorem Invariant.run (h : Invariant options commits s)
    (hrun : ReflTransGen (CarefulStep options commits) s s') :
  Invariant options commits s'
  := by
  induction hrun with
  | refl => exact h
  | tail _ hstep ih => exact ih.step hstep

theorem Starts.invariant (h : Starts options commits s) :
  Invariant options commits s
  := by
  obtain ⟨revision, initialInstances, hinitial⟩ := h
  constructor
  case tracks =>
    intro _
    exact ⟨hinitial, le_rfl, le_rfl, .refl _, nofun, nofun⟩
  case settled =>
    exact ⟨fun i hi => absurd hi (Nat.not_lt_zero i), fun _ => rfl⟩
  case ends =>
    intro hadmitted
    cases hadmitted

/-! ### Guarantees -/

/-- The pump no longer runs. -/
def Ended (s : World urls) : Prop :=
  s.watcher.phase = .ended ∨ s.watcher.phase = .rejected

end Registry.Kubernetes
