import GoLike.Config.Reload

/-!
# Signals are not lost

While a configuration is loaded, a notification that arrived after the last round started has
left the dirty bit set, and then a round is active that will be followed by another one, or a
retry is pending.
-/

namespace Config

variable {α : Type}

namespace Manager

/-- What holds of a round whose callback has not been called. -/
structure RoundOk (m : Manager α) (r : Round α) : Prop where
  load : m.load = .settled
  active : m.reloadActive = true
  runtime : m.runtime = some m.drainStarted
  punctual : r.phase = .preparing ∨ (∃ candidate, r.phase = .prepared candidate) → r.late = false
  base : r.phase ≠ .succeeded → m.current = r.base
  /-- The round fails with the private error only when the drain has started. -/
  intentional : r.phase = .failed .intentionalStop → m.drainStarted = true

/-- What holds of a configuration, but for what starts its rounds. -/
structure Sound (m : Manager α) : Prop where
  rounds : m.rounds = [] ∧ m.reloadActive = false ∨ ∃ r, m.rounds = [r] ∧ m.RoundOk r
  loaded : m.state = .loaded →
    m.load = .settled ∧ m.runtime = some false ∧ m.drainStarted = false
  notified : m.drainStarted = false → m.notified = true → m.dirty = true
  drained : m.drainStarted = true → m.state = .closing ∨ m.state = .closed ∨ m.state = .failed
  starting : m.state = .idle ∨ m.state = .loading → m.load ≠ .settled
  draining : m.load = .draining → m.drainStarted = true
  loading : m.load = .queued ∨ m.load = .preparing ∨ (∃ candidate, m.load = .launched candidate) →
    m.drainStarted = false → m.state = .loading
  launched : ∀ candidate, m.load = .launched candidate → m.drainStarted = false →
    m.runtime = some false
  published : ∀ r ∈ m.published, r.late = false

/-- A dirty configuration has a round that is active or a retry that is pending. -/
def Served (m : Manager α) : Prop :=
  m.state = .loaded → m.dirty = true → m.reloadActive = true ∨ m.reloadRetryTimer.isSome = true

variable {m m' : Manager α}

/-- The other variables do not matter. -/
theorem Sound.congr (h : m.Sound)
    (hrounds : m'.rounds = m.rounds ∧ m'.reloadActive = m.reloadActive ∧ m'.current = m.current)
    (hruntime : m'.runtime = m.runtime ∧ m'.drainStarted = m.drainStarted)
    (hstate : m'.state = m.state ∧ m'.load = m.load ∧ m'.published = m.published)
    (hnotified : m'.drainStarted = false → m'.notified = true → m'.dirty = true) :
  m'.Sound
  := by
  obtain ⟨hrounds, hactive, hcurrent⟩ := hrounds
  obtain ⟨hruntime, hdrain⟩ := hruntime
  obtain ⟨hstate, hload, hpublished⟩ := hstate
  constructor
  case rounds =>
    obtain ⟨hnone, hidle⟩ | ⟨r, hr, hok⟩ := h.rounds
    · exact .inl ⟨hrounds.trans hnone, hactive.trans hidle⟩
    · refine .inr ⟨r, hrounds.trans hr, ?_⟩
      constructor
      case load => exact hload.trans hok.load
      case active => exact hactive.trans hok.active
      case runtime => rw [hruntime, hdrain, hok.runtime]
      case punctual => exact hok.punctual
      case base => exact fun hphase => hcurrent.trans (hok.base hphase)
      case intentional => exact fun hphase => hdrain.trans (hok.intentional hphase)
  case loaded =>
    rw [hstate, hload, hruntime, hdrain]
    exact h.loaded
  case notified => exact hnotified
  case drained =>
    rw [hstate, hdrain]
    exact h.drained
  case starting =>
    rw [hstate, hload]
    exact h.starting
  case draining =>
    rw [hload, hdrain]
    exact h.draining
  case loading =>
    rw [hstate, hload, hdrain]
    exact h.loading
  case launched =>
    rw [hload, hruntime, hdrain]
    exact h.launched
  case published =>
    rw [hpublished]
    exact h.published

/-! ### The functions -/

theorem Sound.pumpDirty (h : m.Sound) :
  m.pumpDirty.Sound ∧ m.pumpDirty.Served
  := by
  rw [Manager.pumpDirty]
  split
  · rename_i hnot
    refine ⟨h, ?_⟩
    intro hloaded hdirty
    obtain ⟨-, hruntime, -⟩ := h.loaded hloaded
    obtain hnot | hactive | hclean | hnone := hnot
    · exact absurd hloaded hnot
    · exact .inl hactive
    · rw [hclean] at hdirty
      cases hdirty
    · rw [hnone] at hruntime
      cases hruntime
  · rename_i hstarts
    simp only [not_or, not_not, Bool.not_eq_true, Bool.not_eq_false] at hstarts
    obtain ⟨hloaded, hactive, hdirty, -⟩ := hstarts
    obtain ⟨hload, hruntime, hdrain⟩ := h.loaded hloaded
    have hrounds : m.rounds = [] := by
      obtain ⟨hrounds, -⟩ | ⟨r, -, hr⟩ := h.rounds
      · exact hrounds
      · rw [hr.active] at hactive
        cases hactive
    refine ⟨?_, fun _ _ => .inl rfl⟩
    constructor
    case rounds =>
      right
      refine ⟨⟨.queued, m.started, m.current, false⟩, ?_, ?_⟩
      · rw [hrounds]
        rfl
      · constructor
        case load => exact hload
        case active => rfl
        case runtime =>
          dsimp only
          rw [hruntime, hdrain]
        case punctual => exact fun _ => rfl
        case base => exact fun _ => rfl
        case intentional => rintro ⟨⟩
    case loaded => exact h.loaded
    case notified => rintro _ ⟨⟩
    case drained => exact h.drained
    case starting => exact h.starting
    case draining => exact h.draining
    case loading => exact h.loading
    case launched => exact h.launched
    case published => exact h.published

theorem Sound.markDirty (h : m.Sound) :
  m.markDirty.Sound ∧ m.markDirty.Served
  := by
  have hmarked : Sound (resetReloadRetry { m with dirty := true, notified := true }) :=
    h.congr ⟨rfl, rfl, rfl⟩ ⟨rfl, rfl⟩ ⟨rfl, rfl, rfl⟩ (fun _ _ => rfl)
  rw [Manager.markDirty]
  split
  · exact hmarked.pumpDirty
  · rename_i hnot
    exact ⟨hmarked, fun hloaded => absurd hloaded hnot⟩

theorem Sound.beginDrain (h : m.Sound) :
  m.beginDrain.Sound
  := by
  rw [Manager.beginDrain]
  split
  · exact h
  · constructor
    case rounds =>
      obtain hnone | ⟨r, hr, hok⟩ := h.rounds
      · exact .inl hnone
      · right
        refine ⟨r, hr, hok.load, hok.active, ?_, hok.punctual, hok.base, fun _ => rfl⟩
        dsimp only
        rw [hok.runtime]
        rfl
    case loaded => rintro ⟨⟩
    case notified => rintro ⟨⟩
    case drained => exact fun _ => .inl rfl
    case starting => rintro (⟨⟨⟩⟩ | ⟨⟨⟩⟩)
    case draining => exact fun _ => rfl
    case loading => rintro _ ⟨⟩
    case launched => rintro _ _ ⟨⟩
    case published => exact h.published

theorem state_beginDrain (h : m.Sound) :
  m.beginDrain.state ≠ .loaded
  := by
  rw [Manager.beginDrain]
  split
  · rename_i hdrain
    intro hloaded
    obtain ⟨-, -, hnot⟩ := h.loaded hloaded
    rw [hnot] at hdrain
    cases hdrain
  · rintro ⟨⟩

theorem Served.of_not_loaded (h : m.state ≠ .loaded) :
  m.Served
  := fun hloaded => absurd hloaded h

theorem Sound.hook (h : m.Sound) (closes : Bool) :
  (m.hook closes).Sound
  := by
  rw [Manager.hook]
  split
  · exact h.beginDrain
  · exact h

theorem Sound.recordAbnormal (h : m.Sound) (failure : Failure) :
  (m.recordAbnormal failure).Sound ∧ (m.recordAbnormal failure).Served
  := by
  have hrecorded : Sound { m with abnormalPrimary := some (m.abnormalPrimary.getD failure) } :=
    h.congr ⟨rfl, rfl, rfl⟩ ⟨rfl, rfl⟩ ⟨rfl, rfl, rfl⟩ h.notified
  rw [Manager.recordAbnormal]
  dsimp only
  split
  · exact ⟨hrecorded.beginDrain, .of_not_loaded (state_beginDrain hrecorded)⟩
  · rename_i hnot
    exact ⟨hrecorded, .of_not_loaded hnot⟩

variable {r : Round α} {rest : List (Round α)}

/-- A round ends. -/
theorem Sound.finished (h : m.Sound) (hrounds : m.rounds = r :: rest) :
  Sound { m with rounds := rest, reloadActive := false }
  := by
  obtain ⟨hnone, -⟩ | ⟨_, hr, -⟩ := h.rounds
  · rw [hnone] at hrounds
    cases hrounds
  · rw [hr, List.cons.injEq] at hrounds
    obtain ⟨-, rfl⟩ := hrounds
    exact ⟨.inl ⟨rfl, rfl⟩, h.loaded, h.notified, h.drained, h.starting, h.draining, h.loading,
      h.launched, h.published⟩

theorem Sound.backgroundSucceeded (h : m.Sound) (hrounds : m.rounds = r :: rest) :
  (Manager.backgroundSucceeded { m with rounds := rest }).Sound ∧
    (Manager.backgroundSucceeded { m with rounds := rest }).Served
  := by
  have hdone : Sound (resetReloadRetry { m with rounds := rest, reloadActive := false }) :=
    (h.finished hrounds).congr ⟨rfl, rfl, rfl⟩ ⟨rfl, rfl⟩ ⟨rfl, rfl, rfl⟩ h.notified
  rw [Manager.backgroundSucceeded]
  split
  · exact hdone.pumpDirty
  · rename_i hnot
    exact ⟨hdone, .of_not_loaded hnot⟩

theorem Sound.backgroundFailed (h : m.Sound) (hrounds : m.rounds = r :: rest) {failure : Failure}
    (hphase : r.phase = .failed failure) (closes : Bool) :
  (Manager.backgroundFailed { m with rounds := rest } failure closes).Sound ∧
    (Manager.backgroundFailed { m with rounds := rest } failure closes).Served
  := by
  have hdone := h.finished hrounds
  rw [Manager.backgroundFailed]
  dsimp only
  split
  · rename_i hintentional
    refine ⟨hdone, ?_⟩
    intro hloaded
    obtain ⟨-, -, hnot⟩ := h.loaded hloaded
    obtain ⟨hnone, -⟩ | ⟨_, hr, hok⟩ := h.rounds
    · rw [hnone] at hrounds
      cases hrounds
    · rw [hr, List.cons.injEq] at hrounds
      obtain ⟨rfl, -⟩ := hrounds
      rw [hintentional] at hphase
      rw [hok.intentional hphase] at hnot
      cases hnot
  · have hreported := hdone.hook closes
    split
    · rename_i hnot
      exact ⟨hreported, .of_not_loaded hnot⟩
    · split
      · apply Sound.pumpDirty
        exact hreported.congr ⟨rfl, rfl, rfl⟩ ⟨rfl, rfl⟩ ⟨rfl, rfl, rfl⟩ (fun _ _ => rfl)
      · refine ⟨?_, fun _ _ => .inr rfl⟩
        exact hreported.congr ⟨rfl, rfl, rfl⟩ ⟨rfl, rfl⟩ ⟨rfl, rfl, rfl⟩ (fun _ _ => rfl)

theorem Sound.retryReload (h : m.Sound) :
  m.retryReload.Sound ∧ m.retryReload.Served
  := by
  have hreleased : Sound { m with reloadRetryTimer := none } :=
    h.congr ⟨rfl, rfl, rfl⟩ ⟨rfl, rfl⟩ ⟨rfl, rfl, rfl⟩ h.notified
  exact hreleased.pumpDirty

/-- No round is active before the load has settled. -/
theorem Sound.rounds_of_load (h : m.Sound) (hload : m.load ≠ .settled) :
  m.rounds = [] ∧ m.reloadActive = false
  := by
  obtain hnone | ⟨r, -, hok⟩ := h.rounds
  · exact hnone
  · exact absurd hok.load hload

theorem Sound.loadFailed (h : m.Sound) (hload : m.load ≠ .settled) (primary : Failure) :
  (m.loadFailed primary).Sound ∧ (m.loadFailed primary).Served
  := by
  have hnone := h.rounds_of_load hload
  have hnot : m.state ≠ .loaded := fun hloaded => hload (h.loaded hloaded).1
  rw [Manager.loadFailed]
  dsimp only
  split
  · rename_i hdrain
    refine ⟨?_, .of_not_loaded hnot⟩
    constructor
    case rounds => exact .inl hnone
    case loaded => exact fun hloaded => absurd hloaded hnot
    case notified => exact h.notified
    case drained => exact h.drained
    case starting => rintro _ ⟨⟩
    case draining => exact fun _ => hdrain.1
    case loading => rintro (⟨⟨⟩⟩ | ⟨⟨⟩⟩ | ⟨_, ⟨⟩⟩)
    case launched => rintro _ ⟨⟩
    case published => exact h.published
  · refine ⟨?_, .of_not_loaded (by rintro ⟨⟩)⟩
    constructor
    case rounds => exact .inl hnone
    case loaded => rintro ⟨⟩
    case notified => exact h.notified
    case drained => exact fun _ => .inl rfl
    case starting => rintro (⟨⟨⟩⟩ | ⟨⟨⟩⟩)
    case draining => rintro ⟨⟩
    case loading => rintro (⟨⟨⟩⟩ | ⟨⟨⟩⟩ | ⟨_, ⟨⟩⟩)
    case launched => rintro _ ⟨⟩
    case published => exact h.published

/-- The load ends without rounds. -/
theorem Sound.loadEnds (h : m.Sound) (hload : m.load ≠ .settled)
    (hrounds : m'.rounds = m.rounds ∧ m'.reloadActive = m.reloadActive ∧ m'.published = m.published)
    (hsignals : m'.notified = m.notified ∧ m'.dirty = m.dirty)
    (hdrain : m'.drainStarted = m.drainStarted) (hload' : m'.load = .settled)
    (hloaded : m'.state = .loaded → m'.runtime = some false ∧ m'.drainStarted = false)
    (hdrained : m'.drainStarted = true → m'.state = .closing ∨ m'.state = .closed ∨ m'.state = .failed)
    (hstarting : ¬ (m'.state = .idle ∨ m'.state = .loading)) :
  m'.Sound
  := by
  obtain ⟨hrounds, hactive, hpublished⟩ := hrounds
  obtain ⟨hnone, hidle⟩ := h.rounds_of_load hload
  constructor
  case rounds => exact .inl ⟨hrounds.trans hnone, hactive.trans hidle⟩
  case loaded => exact fun h' => ⟨hload', hloaded h'⟩
  case notified =>
    rw [hsignals.1, hsignals.2, hdrain]
    exact h.notified
  case drained => exact hdrained
  case starting => exact fun h' => absurd h' hstarting
  case draining =>
    rw [hload']
    rintro ⟨⟩
  case loading =>
    rw [hload']
    rintro (⟨⟨⟩⟩ | ⟨⟨⟩⟩ | ⟨_, ⟨⟩⟩)
  case launched =>
    rw [hload']
    rintro _ ⟨⟩
  case published =>
    rw [hpublished]
    exact h.published

theorem Sound.ready (h : m.Sound) {candidate : α} (hload : m.load = .launched candidate) :
  (m.ready candidate).Sound ∧ (m.ready candidate).Served
  := by
  have hunsettled : m.load ≠ .settled := by
    rw [hload]
    rintro ⟨⟩
  rw [Manager.ready]
  split
  · exact h.loadFailed hunsettled _
  · dsimp only [publish, Manager.hook]
    rw [if_neg Bool.false_ne_true]
    dsimp only
    split
    · refine ⟨?_, .of_not_loaded (by rintro ⟨⟩)⟩
      refine h.loadEnds hunsettled ⟨rfl, rfl, rfl⟩ ⟨rfl, rfl⟩ rfl rfl ?_ ?_ ?_
      · rintro ⟨⟩
      · exact fun _ => .inl rfl
      · rintro (⟨⟨⟩⟩ | ⟨⟨⟩⟩)
    · rename_i hdrain
      have hdrain' : m.drainStarted = false := Bool.eq_false_iff.mpr hdrain
      apply Sound.pumpDirty
      refine h.loadEnds hunsettled ⟨rfl, rfl, rfl⟩ ⟨rfl, rfl⟩ rfl rfl ?_ ?_ ?_
      · exact fun _ => ⟨h.launched candidate hload hdrain', hdrain'⟩
      · exact fun hdrained => absurd hdrained hdrain
      · rintro (⟨⟨⟩⟩ | ⟨⟨⟩⟩)

/-- A load that has not settled goes on. -/
theorem Sound.loadStep (h : m.Sound) (hload : m.load ≠ .settled)
    (hrounds : m'.rounds = m.rounds ∧ m'.reloadActive = m.reloadActive ∧ m'.published = m.published)
    (hsignals : m'.notified = m.notified ∧ m'.dirty = m.dirty)
    (hstate : m'.state = m.state ∧ m'.drainStarted = m.drainStarted)
    (hload' : m'.load ≠ .settled ∧ m'.load ≠ .draining)
    (hloading : m.drainStarted = false → m.state = .loading)
    (hlaunched : ∀ candidate, m'.load = .launched candidate → m'.runtime = some false) :
  m'.Sound ∧ m'.Served
  := by
  obtain ⟨hrounds, hactive, hpublished⟩ := hrounds
  obtain ⟨hstate, hdrain⟩ := hstate
  obtain ⟨hnone, hidle⟩ := h.rounds_of_load hload
  have hnot : m'.state ≠ .loaded := by
    rw [hstate]
    exact fun hloaded => hload (h.loaded hloaded).1
  refine ⟨?_, .of_not_loaded hnot⟩
  constructor
  case rounds => exact .inl ⟨hrounds.trans hnone, hactive.trans hidle⟩
  case loaded => exact fun hloaded => absurd hloaded hnot
  case notified =>
    rw [hsignals.1, hsignals.2, hdrain]
    exact h.notified
  case drained =>
    rw [hstate, hdrain]
    exact h.drained
  case starting => exact fun _ => hload'.1
  case draining => exact fun hdraining => absurd hdraining hload'.2
  case loading =>
    rw [hstate, hdrain]
    exact fun _ => hloading
  case launched => exact fun candidate hlaunch _ => hlaunched candidate hlaunch
  case published =>
    rw [hpublished]
    exact h.published

/-! ### Rounds -/

/-- The round of a configuration. -/
theorem Sound.round (h : m.Sound) (hrounds : m.rounds = r :: rest) :
  m.rounds = [r] ∧ rest = [] ∧ m.RoundOk r
  := by
  obtain ⟨hnone, -⟩ | ⟨_, hr, hok⟩ := h.rounds
  · rw [hnone] at hrounds
    cases hrounds
  · rw [hr, List.cons.injEq] at hrounds
    obtain ⟨rfl, rfl⟩ := hrounds
    exact ⟨hr, rfl, hok⟩

/-- A round goes on. -/
theorem Sound.setRound (h : m.Sound) (hrounds : m.rounds = r :: rest) {r' : Round α}
    (hok : m.RoundOk r') :
  (m.setRound r').Sound
  := by
  obtain ⟨hone, -, -⟩ := h.round hrounds
  refine ⟨.inr ⟨r', ?_, ?_⟩, h.loaded, h.notified, h.drained, h.starting, h.draining, h.loading,
      h.launched, h.published⟩
  · rw [Manager.setRound, hone]
    rfl
  · exact ⟨hok.load, hok.active, hok.runtime, hok.punctual, hok.base, hok.intentional⟩

end Manager

open Manager

/-! ### Runs -/

theorem sound_newConfig :
  (newConfig : Manager α).Sound
  := by
  constructor
  case rounds => exact .inl ⟨rfl, rfl⟩
  case loaded => rintro ⟨⟩
  case notified => rintro _ ⟨⟩
  case drained => rintro ⟨⟩
  case starting => rintro _ ⟨⟩
  case draining => rintro ⟨⟩
  case loading => rintro (⟨⟨⟩⟩ | ⟨⟨⟩⟩ | ⟨_, ⟨⟩⟩)
  case launched => rintro _ ⟨⟩
  case published => rintro r ⟨⟩

variable {m : Manager α}

/-- The drain has not started while a configuration is idle or loading. -/
theorem Manager.Sound.undrained (h : m.Sound) (hstate : m.state = .idle ∨ m.state = .loading) :
  m.drainStarted ≠ true
  := by
  intro hdrain
  obtain hclosing | hclosed | hfailed := h.drained hdrain
  · rw [hclosing] at hstate
    obtain ⟨⟨⟩⟩ | ⟨⟨⟩⟩ := hstate
  · rw [hclosed] at hstate
    obtain ⟨⟨⟩⟩ | ⟨⟨⟩⟩ := hstate
  · rw [hfailed] at hstate
    obtain ⟨⟨⟩⟩ | ⟨⟨⟩⟩ := hstate

/-- An idle configuration has no load. -/
theorem Manager.Sound.idle (h : m.Sound) (hstate : m.state = .idle) :
  ¬ (m.load = .queued ∨ m.load = .preparing ∨ ∃ candidate, m.load = .launched candidate)
  := by
  intro hload
  have hloading := h.loading hload (Bool.eq_false_iff.mpr (h.undrained (.inl hstate)))
  rw [hstate] at hloading
  cases hloading

variable {m' : Manager α}

/-- A step keeps a configuration sound, and its changes served. -/
theorem sound_step (h : m.Sound) (hserved : m.Served) (hstep : Step m m') :
  m'.Sound ∧ m'.Served
  := by
  cases hstep with
  | load hstate =>
      have hnone := h.rounds_of_load (h.starting (.inl hstate))
      refine ⟨?_, .of_not_loaded (by rintro ⟨⟩)⟩
      constructor
      case rounds => exact .inl hnone
      case loaded => rintro ⟨⟩
      case notified => exact h.notified
      case drained => exact fun hdrain => absurd hdrain (h.undrained (.inl hstate))
      case starting => rintro _ ⟨⟩
      case draining => rintro ⟨⟩
      case loading => exact fun _ _ => rfl
      case launched => rintro _ ⟨⟩
      case published => exact h.published
  | loadCanceled hstate =>
      have hnone := h.rounds_of_load (h.starting (.inl hstate))
      refine ⟨?_, .of_not_loaded (by rintro ⟨⟩)⟩
      constructor
      case rounds => exact .inl hnone
      case loaded => rintro ⟨⟩
      case notified => exact h.notified
      case drained => exact fun _ => .inr (.inr rfl)
      case starting => rintro (⟨⟨⟩⟩ | ⟨⟨⟩⟩)
      case draining => exact h.draining
      case loading => exact fun hload => absurd hload (h.idle hstate)
      case launched => exact h.launched
      case published => exact h.published
  | loadBegins hload =>
      refine h.loadStep (by rw [hload]; rintro ⟨⟩) ⟨rfl, rfl, rfl⟩ ⟨rfl, rfl⟩ ⟨rfl, rfl⟩ ?_ ?_ ?_
      · exact ⟨by rintro ⟨⟩, by rintro ⟨⟩⟩
      · exact h.loading (.inl hload)
      · rintro _ ⟨⟩
  | loadFails hload failure hfailure =>
      exact h.loadFailed (by rw [hload]; rintro ⟨⟩) failure
  | launches hload hstartup candidate watchers =>
      refine h.loadStep (by rw [hload]; rintro ⟨⟩) ⟨rfl, rfl, rfl⟩ ⟨rfl, rfl⟩ ⟨rfl, rfl⟩ ?_ ?_ ?_
      · exact ⟨by rintro ⟨⟩, by rintro ⟨⟩⟩
      · exact h.loading (.inr (.inl hload))
      · exact fun _ _ => rfl
  | ready hload => exact h.ready hload
  | rolledBack hload =>
      refine ⟨?_, .of_not_loaded (by rintro ⟨⟩)⟩
      refine h.loadEnds (by rw [hload]; rintro ⟨⟩) ⟨rfl, rfl, rfl⟩ ⟨rfl, rfl⟩ rfl rfl ?_ ?_ ?_
      · rintro ⟨⟩
      · exact fun _ => .inr (.inr rfl)
      · rintro (⟨⟨⟩⟩ | ⟨⟨⟩⟩)
  | loadDrained hload =>
      have hdrain := h.draining hload
      refine ⟨?_, hserved⟩
      refine h.loadEnds (by rw [hload]; rintro ⟨⟩) ⟨rfl, rfl, rfl⟩ ⟨rfl, rfl⟩ rfl rfl ?_ ?_ ?_
      · exact fun hloaded => (h.loaded hloaded).2
      · exact h.drained
      · exact fun hstate => h.undrained hstate hdrain
  | nextResolved hloop =>
      rw [Manager.nextResolved]
      split
      · exact h.markDirty
      · exact ⟨h.congr ⟨rfl, rfl, rfl⟩ ⟨rfl, rfl⟩ ⟨rfl, rfl, rfl⟩ h.notified, hserved⟩
  | @nextRejected i hloop failure =>
      have hended : Sound { m with loops := m.loops.set i false } :=
        h.congr ⟨rfl, rfl, rfl⟩ ⟨rfl, rfl⟩ ⟨rfl, rfl, rfl⟩ h.notified
      rw [Manager.nextRejected]
      split
      · exact ⟨hended, hserved⟩
      · split
        · exact ⟨hended, hserved⟩
        · exact hended.recordAbnormal failure
  | roundBegins hrounds hphase hload =>
      obtain ⟨-, -, hok⟩ := h.round hrounds
      refine ⟨h.setRound hrounds ?_, hserved⟩
      refine ⟨hok.load, hok.active, hok.runtime, ?_, ?_, ?_⟩
      · intro hgoing
        dsimp only at hgoing ⊢
        rw [hok.runtime] at hgoing
        cases hdrain : m.drainStarted with
        | false => rfl
        | true =>
            rw [hdrain, if_pos rfl] at hgoing
            obtain ⟨⟨⟩⟩ | ⟨_, ⟨⟩⟩ := hgoing
      · exact fun _ => hok.base (by rw [hphase]; rintro ⟨⟩)
      · intro hfailed
        dsimp only at hfailed
        split at hfailed
        · rename_i hcanceled
          exact Option.some.inj (hok.runtime.symm.trans hcanceled)
        · cases hfailed
  | roundPrepared hrounds hphase hruntime candidate =>
      obtain ⟨-, -, hok⟩ := h.round hrounds
      refine ⟨h.setRound hrounds ?_, hserved⟩
      refine ⟨hok.load, hok.active, hok.runtime, ?_, ?_, ?_⟩
      · exact fun _ => hok.punctual (.inl hphase)
      · exact fun _ => hok.base (by rw [hphase]; rintro ⟨⟩)
      · rintro ⟨⟩
  | roundFails hrounds hphase failure hfailure =>
      obtain ⟨-, -, hok⟩ := h.round hrounds
      refine ⟨h.setRound hrounds ?_, hserved⟩
      refine ⟨hok.load, hok.active, hok.runtime, ?_, ?_, ?_⟩
      · rintro (⟨⟨⟩⟩ | ⟨_, ⟨⟩⟩)
      · exact fun _ => hok.base (by rw [hphase]; rintro ⟨⟩)
      · rintro ⟨⟩
        exact Option.some.inj (hok.runtime.symm.trans (hfailure rfl))
  | @roundPublishes r rest candidate hrounds hphase closes =>
      obtain ⟨hone, -, hok⟩ := h.round hrounds
      have hlate := hok.punctual (.inr ⟨candidate, hphase⟩)
      have hpublished : Sound
          { m.setRound { r with phase := .succeeded } with
            published := m.published ++ [r]
            current := some (m.publication candidate) } := by
        refine ⟨.inr ⟨{ r with phase := .succeeded }, ?_, hok.load, hok.active, hok.runtime, ?_,
          ?_, ?_⟩, h.loaded, h.notified, h.drained, h.starting, h.draining, h.loading, h.launched,
          ?_⟩
        · rw [Manager.setRound, hone]
          rfl
        · rintro (⟨⟨⟩⟩ | ⟨_, ⟨⟩⟩)
        · exact fun hnot => absurd rfl hnot
        · rintro ⟨⟩
        · intro p hp
          obtain hp | hp := List.mem_append.mp hp
          · exact h.published p hp
          · rw [List.mem_singleton.mp hp]
            exact hlate
      refine ⟨hpublished.hook closes, ?_⟩
      rw [publish, Manager.hook]
      split
      · exact .of_not_loaded (state_beginDrain hpublished)
      · exact hserved
  | backgroundSucceeded hrounds hphase => exact h.backgroundSucceeded hrounds
  | backgroundFailed hrounds hphase closes => exact h.backgroundFailed hrounds hphase closes
  | timerFires htimer => exact h.retryReload
  | close => exact ⟨h.beginDrain, .of_not_loaded (state_beginDrain h)⟩
  | drained hdrain hstate hload hrounds hloops clean =>
      have hnot : (if clean = true then LifecycleState.closed else .failed) ≠ .loaded ∧
          ¬ ((if clean = true then LifecycleState.closed else .failed) = .idle ∨
            (if clean = true then LifecycleState.closed else .failed) = .loading) := by
        cases clean <;> decide
      have hended : (if clean = true then LifecycleState.closed else .failed) = .closing ∨
          (if clean = true then LifecycleState.closed else .failed) = .closed ∨
          (if clean = true then LifecycleState.closed else .failed) = .failed := by
        cases clean <;> decide
      refine ⟨?_, .of_not_loaded hnot.1⟩
      constructor
      case rounds =>
        obtain hnone | ⟨r, hr, -⟩ := h.rounds
        · exact .inl hnone
        · rw [hrounds] at hr
          cases hr
      case loaded => exact fun hloaded => absurd hloaded hnot.1
      case notified => exact h.notified
      case drained => exact fun _ => hended
      case starting => exact fun hstate => absurd hstate hnot.2
      case draining => exact h.draining
      case loading =>
        intro _ hundrained
        rw [hdrain] at hundrained
        cases hundrained
      case launched => exact h.launched
      case published => exact h.published

/-- A run keeps a configuration sound, and its changes served. -/
theorem sound_run (hrun : Relation.ReflTransGen Step newConfig m) :
  m.Sound ∧ m.Served
  := by
  induction hrun with
  | refl => exact ⟨sound_newConfig, by rintro ⟨⟩⟩
  | tail _ hstep ih => exact sound_step ih.1 ih.2 hstep

/-! ### Closing -/

theorem drainStarted_pumpDirty (m : Manager α) :
  m.pumpDirty.drainStarted = m.drainStarted
  := by
  rw [Manager.pumpDirty]
  split
  · rfl
  · rfl

theorem started_pumpDirty (h : m.state ≠ .loaded) :
  m.pumpDirty.started = m.started
  := by rw [Manager.pumpDirty, if_pos (.inl h)]

/-- The drain has started, and as many rounds as a number. -/
def Stopped (n : ℕ) (m : Manager α) : Prop := m.drainStarted = true ∧ m.started = n

theorem beginDrain_of_drained (h : m.drainStarted = true) :
  m.beginDrain = m
  := by rw [Manager.beginDrain, if_pos h]

theorem hook_of_drained (h : m.drainStarted = true) (closes : Bool) :
  m.hook closes = m
  := by
  rw [Manager.hook]
  split
  · exact beginDrain_of_drained h
  · rfl

variable {n : ℕ}

theorem Stopped.pumpDirty (h : Stopped n m) (hstate : m.state ≠ .loaded) :
  Stopped n m.pumpDirty
  := ⟨(drainStarted_pumpDirty m).trans h.1, (started_pumpDirty hstate).trans h.2⟩

theorem Stopped.loadFailed (h : Stopped n m) (primary : Failure) :
  Stopped n (m.loadFailed primary)
  := by
  rw [Manager.loadFailed]
  split
  · exact h
  · exact h

/-- After the drain has started no round starts. -/
theorem Stopped.step (h : Stopped n m) (hsound : m.Sound) (hstep : Step m m') :
  Stopped n m'
  := by
  have hnot : m.state ≠ .loaded := by
    intro hloaded
    obtain ⟨-, -, hdrain⟩ := hsound.loaded hloaded
    rw [h.1] at hdrain
    cases hdrain
  cases hstep with
  | load | loadCanceled | loadBegins | launches | rolledBack | loadDrained | roundBegins
  | roundPrepared | roundFails | drained => exact h
  | loadFails hload failure hfailure => exact h.loadFailed failure
  | ready hload =>
      rw [Manager.ready]
      split
      · exact h.loadFailed _
      · dsimp only [publish, Manager.hook]
        rw [if_neg Bool.false_ne_true, if_pos h.1]
        exact h
  | nextResolved hloop =>
      rw [Manager.nextResolved]
      split
      · rw [Manager.markDirty]
        split
        · rename_i hloaded
          exact absurd hloaded hnot
        · exact h
      · exact h
  | nextRejected hloop failure =>
      rw [Manager.nextRejected]
      split
      · exact h
      · split
        · exact h
        · rw [Manager.recordAbnormal]
          split
          · rename_i hloaded
            exact absurd hloaded hnot
          · exact h
  | roundPublishes hrounds hphase closes =>
      rw [publish, hook_of_drained]
      · exact h
      · exact h.1
  | backgroundSucceeded hrounds hphase =>
      rw [Manager.backgroundSucceeded]
      split
      · rename_i hloaded
        exact absurd hloaded hnot
      · exact h
  | backgroundFailed hrounds hphase closes =>
      dsimp only [Manager.backgroundFailed]
      split
      · exact h
      · rw [hook_of_drained, if_pos hnot]
        · exact h
        · exact h.1
  | timerFires htimer => exact Stopped.pumpDirty h hnot
  | close =>
      rw [beginDrain_of_drained h.1]
      exact h

theorem Stopped.run (h : Stopped n m) (hsound : m.Sound) (hserved : m.Served)
    (hrun : Relation.ReflTransGen Step m m') :
  Stopped n m' ∧ m'.Sound
  := by
  have hkept : Stopped n m' ∧ m'.Sound ∧ m'.Served := by
    induction hrun with
    | refl => exact ⟨h, hsound, hserved⟩
    | tail _ hstep ih => exact ⟨ih.1.step ih.2.1 hstep, sound_step ih.2.1 ih.2.2 hstep⟩
  exact ⟨hkept.1, hkept.2.1⟩

/-! ### Signals -/

/-- The callback of a round that has settled is called. -/
inductive Completes (m : Manager α) : Manager α → Prop where
  | succeeded {r : Round α} {rest : List (Round α)} (hrounds : m.rounds = r :: rest)
      (hphase : r.phase = .succeeded) :
      Completes m (backgroundSucceeded { m with rounds := rest })
  | failed {r : Round α} {rest : List (Round α)} {failure : Failure}
      (hrounds : m.rounds = r :: rest) (hphase : r.phase = .failed failure) (closes : Bool) :
      Completes m (backgroundFailed { m with rounds := rest } failure closes)

end Config
