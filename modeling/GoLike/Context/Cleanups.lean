import GoLike.Context.CleanupOnce

/-!
# The cleanups of a run

Every step keeps a state sound, provided that the signals of foreign contexts are only aborted
when no wave runs. So in such runs each cleanup that was registered before its context ended
runs exactly once, whatever listeners and cleanups throw or do, and within a wave descendants
come before ancestors.
-/

namespace ContextTree

namespace Machine

variable {κ ν ε : Type}

/-! ### The operations -/

variable {s : Machine κ ν ε}

/-- A context is created. -/
theorem Sound.newCancelContext (h : s.Sound) {parent : Context κ ν} (hparent : s.Knows parent)
    (deadlineEpoch : Option ℤ) (requested : Option (ℤ × ErrorValue ε))
    (failure : Option (Failure ε)) :
  (s.newCancelContext parent deadlineEpoch requested failure).Sound
  := by
  have hevolves := evolves_registerCancelNode h.grounded hparent deadlineEpoch requested failure
  have hcreated : (s.registerCancelNode parent deadlineEpoch requested failure).Sound := by
    apply h.evolve hevolves rfl rfl _ (h.once.registerCancelNode h.grounded _ _ _ _)
    intro n child cell hcell hchild
    by_cases hn : n = s.next
    · subst hn
      rw [registerCancelNode_cells_same] at hcell
      obtain rfl := Option.some.inj hcell
      cases hchild
    · rw [registerCancelNode_cells_of_ne s hn] at hcell
      exact hevolves.extends_.link (h.listening hcell hchild)
  rw [Machine.newCancelContext]
  cases hdone : parent.resolveDone with
  | none => exact hcreated
  | some signal =>
      cases signal with
      | foreign id => exact hcreated
      | node node =>
          cases failure with
          | some failure => exact hcreated
          | none =>
              apply hcreated.addListener
              rintro child ⟨⟩
              rw [link, registerCancelNode_cells_same, Option.bind_some, newCell, hdone]

/-- The timer of a context is started. -/
theorem Sound.startDeadlineTimer (h : s.Sound) (n : ℕ) (cause : ErrorValue ε) (start : TimerStart) :
  (s.startDeadlineTimer n cause start).Sound
  := by
  have hadd := h.addCleanup n .stopTimer
  cases start with
  | clockFails | due => exact h.cancel n _ _
  | armed =>
      apply hadd.adjust_keep
      · exact fun _ => ⟨rfl, rfl, rfl, fun h => ⟨h, rfl, rfl⟩⟩
      · exact fun _ => ⟨rfl, rfl, rfl, rfl⟩
  | timerFails => exact hadd.cancel n _ _

/-- A context with a deadline is created. -/
theorem Sound.newTimedContext (h : s.Sound) (methods : ForeignMethods κ ν ε) {parent : Context κ ν}
    (hparent : s.Knows parent) (requestedEpoch : ℤ) (cause : ErrorValue ε)
    (failure : Option (Failure ε)) (start : TimerStart) :
  (s.newTimedContext methods parent requestedEpoch cause failure start).Sound
  := by
  have hown : (newTimedContext.own s parent requestedEpoch cause failure start).Sound := by
    have hcreated := h.newCancelContext hparent (some requestedEpoch)
      (some (requestedEpoch, cause)) failure
    rw [newTimedContext.own]
    split
    · exact hcreated
    · exact hcreated.startDeadlineTimer _ _ _
  rw [Machine.newTimedContext]
  split
  · split
    · exact h.newCancelContext hparent _ _ _
    · exact hown
  · exact hown

variable {task : Task ε}

/-- What is queued on a stack without waves is not queued. -/
theorem enqueue_eq_none {stack : List (Frame ε)} (h : waves stack = []) :
  enqueue task stack = none
  := by
  induction stack with
  | nil => rfl
  | cons frame rest ih =>
      cases frame with
      | code | dispatch => rw [enqueue, ih h, Option.map_none]
      | wave id root tasks cleanupFrames => cases h

/-- No wave runs when none is on the stack. -/
theorem waves_eq_nil (h : ¬ s.InWave) :
  waves s.stack = []
  := by
  apply List.filterMap_eq_nil_iff.2
  intro frame hframe
  cases frame with
  | code | dispatch => rfl
  | wave id root tasks cleanupFrames => exact (h ⟨id, root, tasks, cleanupFrames, hframe⟩).elim

/-- The listener of a child is marked. -/
theorem Sound.markAdmitted (h : s.Sound) (n : ℕ) :
  (s.adjust n (fun cell => { cell with registration := .admitted })).Sound
  := by
  apply h.adjust_keep
  · exact fun _ => ⟨rfl, rfl, rfl, fun h => ⟨h, rfl, rfl⟩⟩
  · exact fun _ => ⟨rfl, rfl, rfl, rfl⟩

variable {id : ℕ}

/-- The signal of a foreign parent is aborted when no wave runs, and a wave is run for the
child. -/
theorem Sound.foreignAborts (h : s.Sound) (hidle : ¬ s.InWave) {n : ℕ}
    (hlink : s.link n = some (.foreign id)) :
  (s.cancelFromParent n).Sound
  := by
  rw [cancelFromParent]
  split
  · have hevolves : Evolves s
        (s.adjust n (fun cell => { cell with registration := .admitted })) :=
      evolves_adjust h.grounded (fun _ _ => ⟨rfl, rfl, rfl, fun h => ⟨h, rfl, rfl⟩⟩)
    rw [enqueueParentCancellation, adjust_stack, enqueue_eq_none (waves_eq_nil hidle)]
    apply (h.markAdmitted n).runCancellationWave
    exact .inl ⟨rfl, id, hevolves.extends_.link hlink⟩
  · exact h

variable {rest : List (Frame ε)}

/-- The listener of a child is called by the dispatch on top, and its end is queued in the wave
below. -/
theorem Sound.callsChild (h : s.Sound) {node child : ℕ} {listeners : List Listener}
    {pending : List Cleanup} (hstack : s.stack = .dispatch node listeners pending :: rest)
    (hlink : s.link child = some (.node node)) :
  (s.cancelFromParent child).Sound
  := by
  rw [cancelFromParent]
  split
  · have hmarked := h.markAdmitted child
    have hstack' : (s.adjust child
        (fun cell => { cell with registration := .admitted })).stack =
          .dispatch node listeners pending :: rest := hstack
    have hlink' : (s.adjust child
        (fun cell => { cell with registration := .admitted })).link child =
          some (.node node) :=
      (evolves_adjust h.grounded (f := fun cell => { cell with registration := .admitted })
        (fun _ _ => ⟨rfl, rfl, rfl, fun h => ⟨h, rfl, rfl⟩⟩)).extends_.link hlink
    generalize s.adjust child (fun cell => { cell with registration := .admitted }) = s' at *
    have hsound := hmarked.stack
    rw [hstack'] at hsound
    obtain ⟨hdispatch, hrest⟩ := hsound
    cases rest with
    | nil => cases hdispatch
    | cons frame rest =>
        cases frame with
        | code | dispatch => cases hdispatch
        | wave id root tasks cleanupFrames =>
            obtain ⟨hnone, hunder, habove, hlinked, hlinks⟩ := hdispatch
            have hwave : s'.WaveSound id root tasks cleanupFrames rest := hrest.1
            rw [enqueueParentCancellation, hstack', enqueue, enqueue, Option.map_some]
            have hlinked' : ∀ n, .fromParent n ∈ tasks ++ [Task.fromParent child] →
                ∃ p, s'.link n = some (.node p) := by
              intro n hn
              obtain hn | hn := List.mem_append.1 hn
              · exact hlinked n hn
              · obtain ⟨⟩ := List.mem_singleton.1 hn
                exact ⟨node, hlink'⟩
            apply hmarked.restack
            · refine ⟨⟨hnone, hunder, habove, hlinked', hlinks⟩, ?_, hrest.2⟩
              constructor
              case recent => exact hwave.recent
              case last => exact hwave.last
              case idle => exact fun _ => hnone
              case sound =>
                intro task htask
                obtain htask | htask := List.mem_append.1 htask
                · exact hwave.sound task htask
                · rw [List.mem_singleton.1 htask]
                  exact .inr ⟨node, hlink', hunder⟩
              case alone =>
                intro n foreign hn hforeign
                obtain ⟨p, hp⟩ := hlinked' n hn
                rw [hp] at hforeign
                cases hforeign
              case under => exact hwave.under
              case above => exact hwave.above
              case ran => exact hwave.ran
            · intro n c
              rw [hstack', stackCount_cons, stackCount_cons, stackCount_cons, stackCount_cons]
              rfl
  · exact h

/-- A wave that takes a task is sound without it, and what is left has links. -/
theorem WaveSound.takes {root : ℕ} {tasks : List (Task ε)} {cleanupFrames : List (ℕ × List Cleanup)}
    (h : s.WaveSound id root (task :: tasks) cleanupFrames rest) :
  s.WaveSound id root tasks cleanupFrames rest ∧
    ∀ n, .fromParent n ∈ tasks → ∃ p, s.link n = some (.node p)
  := by
  have hlinked : ∀ n, .fromParent n ∈ tasks → ∃ p, s.link n = some (.node p) := by
    intro n hn
    obtain ⟨-, foreign, hlink⟩ | ⟨p, hlink, -⟩ := h.sound _ (List.mem_cons_of_mem task hn)
    · obtain ⟨htasks, -⟩ := h.alone (List.mem_cons_of_mem task hn) hlink
      rw [(List.cons.inj htasks).2] at hn
      cases hn
    · exact ⟨p, hlink⟩
  refine ⟨?_, hlinked⟩
  constructor
  case recent => exact h.recent
  case last => exact h.last
  case idle => exact fun _ => h.idle (List.cons_ne_nil task tasks)
  case sound => exact fun task' htask => h.sound task' (List.mem_cons_of_mem task htask)
  case alone =>
    intro n foreign hn hforeign
    obtain ⟨p, hp⟩ := hlinked n hn
    rw [hp] at hforeign
    cases hforeign
  case under => exact h.under
  case above => exact h.above
  case ran => exact h.ran

/-- A task is taken off the queue of the wave on top, and the context is ended. -/
theorem Sound.takes (h : s.Sound) {root n : ℕ} {tasks : List (Task ε)}
    {cleanupFrames : List (ℕ × List Cleanup)}
    (hstack : s.stack = .wave id root (task :: tasks) cleanupFrames :: rest)
    (htask : n = root ∨ ∃ p, s.link n = some (.node p) ∧ s.Under root p) (failure : Failure ε)
    (ending : Ending) :
  (({ s with stack := .wave id root tasks cleanupFrames :: rest } : Machine κ ν ε).settle n
    failure ending).Sound
  := by
  have hsound := h.stack
  rw [hstack] at hsound
  have hwave : s.WaveSound id root (task :: tasks) cleanupFrames rest := hsound.1
  have hpop : ({ s with stack := .wave id root tasks cleanupFrames :: rest } :
      Machine κ ν ε).Sound := by
    have hrest : s.StackSound (.wave id root tasks cleanupFrames :: rest) :=
      ⟨hwave.takes.1, hsound.2⟩
    apply h.restack hrest
    intro m c
    rw [hstack, stackCount_cons, stackCount_cons]
    rfl
  apply hpop.settle rfl (hwave.idle (List.cons_ne_nil task tasks)) hwave.takes.2
  · obtain rfl | ⟨p, hlink, hp⟩ := htask
    · exact .inl rfl
    · right
      obtain rfl | hjoined := hp.joined
      · exact .single hlink
      · exact .head hlink hjoined
  · intro s' hevolves hended
    obtain rfl | ⟨p, hlink, hp⟩ := htask
    · exact Under.root hevolves.grounded hended
    · have hp' : ({ s with stack := .wave id root tasks cleanupFrames :: rest } :
          Machine κ ν ε).Under root p := ⟨hp.joined, hp.ended⟩
      exact Under.child hevolves.grounded (hevolves.extends_.link hlink)
        (hevolves.extends_.under hpop.grounded hp') hended

/-- Code of a caller is called. -/
theorem Sound.calls (h : s.Sound) {origin : Origin} (horigin : ∀ n, origin ≠ .reading n) :
  ({ s with stack := .code origin :: s.stack } : Machine κ ν ε).Sound
  := by
  apply h.restack
  · refine ⟨?_, h.stack⟩
    cases origin with
    | host | listener | cleanup => trivial
    | reading n => exact (horigin n rfl).elim
  · intro n c
    rw [stackCount_cons, Frame.pendingCount, Nat.zero_add]

/-! ### Steps and runs -/

section

variable [DecidableEq κ]

/-- Every step keeps a state sound. -/
theorem Step.sound {s s' : Machine κ ν ε} (h : s.Sound)
    (hstep : Step (fun s => ¬ s.InWave) s s') :
  s'.Sound
  := by
  have hsound := h.stack
  cases hstep with
  | withCancel _ methods foreignAborted parent hparent =>
      exact h.newCancelContext hparent _ _ _
  | withDeadline _ methods foreignAborted parent hparent requestedEpoch cause start =>
      exact h.newTimedContext methods hparent _ _ _ _
  | addCleanup _ node callback => exact h.addCleanup node _
  | addListener _ node callback =>
      apply h.addListener node
      rintro child ⟨⟩
  | cancelFunc _ node cause hnode | deadline _ node hcell htimer hrequested =>
      exact h.cancel node _ _
  | foreignAborts _ haborts node hcell hparent =>
      apply h.foreignAborts haborts
      rw [link, hcell, Option.bind_some, hparent]
  | listenerEnds hstack | cleanupEnds hstack =>
      rw [hstack] at hsound
      apply h.restack hsound.2
      intro n c
      rw [hstack, stackCount_cons, Frame.pendingCount, Nat.zero_add]
  | @parentRead node rest hstack methods cell hcell =>
      rw [hstack] at hsound
      have hpop : ({ s with stack := rest } : Machine κ ν ε).Sound := by
        apply h.restack hsound.2
        intro n c
        rw [hstack, stackCount_cons, Frame.pendingCount, Nat.zero_add]
      obtain ⟨hreading, hrest⟩ := hsound
      cases rest with
      | nil => cases hreading
      | cons frame rest =>
          cases frame with
          | code | dispatch => cases hreading
          | wave id root tasks cleanupFrames =>
              obtain ⟨hnone, rfl, rfl, rfl⟩ := hreading
              apply hpop.settle rfl hnone
              · intro n hn
                cases hn
              · exact .inl rfl
              · exact fun hevolves hended => Under.root hevolves.grounded hended
  | @parentThrows node id root tasks cleanupFrames rest hstack =>
      rw [hstack] at hsound
      obtain ⟨⟨-, -, -, rfl⟩, -, hrest⟩ := hsound
      apply h.restack hrest
      intro n c
      rw [hstack, stackCount_cons, stackCount_cons, Frame.pendingCount, Frame.pendingCount,
        framesCount_nil, Nat.zero_add, Nat.zero_add]
  | takesOwn hstack =>
      rw [hstack] at hsound
      apply h.takes hstack
      left
      exact WaveSound.sound hsound.1 _ List.mem_cons_self
  | takesChild hstack hcell hparent methods =>
      rw [hstack] at hsound
      apply h.takes hstack
      obtain ⟨rfl, -⟩ | hlinked := WaveSound.sound hsound.1 _ List.mem_cons_self
      · exact .inl rfl
      · exact .inr hlinked
  | @readsParent id root node tasks cleanupFrames rest hstack cell hcell foreign hparent =>
      rw [hstack] at hsound
      obtain ⟨hwave, hrest⟩ := hsound
      have hlink : s.link node = some (.foreign foreign) := by
        rw [link, hcell, Option.bind_some, hparent]
      obtain ⟨htasks, rfl⟩ := WaveSound.alone hwave List.mem_cons_self hlink
      obtain rfl := (List.cons.inj htasks).2
      apply h.restack
      · refine ⟨⟨WaveSound.idle hwave (List.cons_ne_nil _ _), ?_, rfl, rfl⟩,
          (WaveSound.takes hwave).1, hrest⟩
        obtain ⟨hroot, -⟩ | ⟨p, hp, -⟩ := WaveSound.sound hwave _ List.mem_cons_self
        · exact hroot
        · rw [hlink] at hp
          cases hp
      · intro n c
        rw [hstack, stackCount_cons, stackCount_cons, stackCount_cons, Frame.pendingCount,
          Nat.zero_add]
        rfl
  | @callsChild node child listeners pending rest hstack =>
      rw [hstack] at hsound
      obtain ⟨hdispatch, hrest⟩ := hsound
      cases rest with
      | nil => cases hdispatch
      | cons frame rest =>
          cases frame with
          | code | dispatch => cases hdispatch
          | wave id root tasks cleanupFrames =>
              obtain ⟨hnone, hunder, habove, hlinked, hlinks⟩ := hdispatch
              have hpop : ({ s with
                  stack := .dispatch node listeners pending ::
                    .wave id root tasks cleanupFrames :: rest } : Machine κ ν ε).Sound := by
                apply h.restack
                · exact ⟨⟨hnone, hunder, habove, hlinked,
                    fun child hchild => hlinks child (List.mem_cons_of_mem _ hchild)⟩, hrest⟩
                · intro n c
                  rw [hstack, stackCount_cons, stackCount_cons]
                  rfl
              apply hpop.callsChild rfl
              exact hlinks child List.mem_cons_self
  | @callsRaw node callback listeners pending rest hstack =>
      rw [hstack] at hsound
      obtain ⟨hdispatch, hrest⟩ := hsound
      cases rest with
      | nil => cases hdispatch
      | cons frame rest =>
          cases frame with
          | code | dispatch => cases hdispatch
          | wave id root tasks cleanupFrames =>
              obtain ⟨hnone, hunder, habove, hlinked, hlinks⟩ := hdispatch
              apply h.restack
              · exact ⟨trivial, ⟨hnone, hunder, habove, hlinked,
                  fun child hchild => hlinks child (List.mem_cons_of_mem _ hchild)⟩, hrest⟩
              · intro n c
                rw [hstack, stackCount_cons, stackCount_cons, stackCount_cons,
                  Frame.pendingCount, Nat.zero_add]
                rfl
  | @dispatched node id root pending tasks cleanupFrames rest hstack =>
      rw [hstack] at hsound
      obtain ⟨⟨hnone, hunder, habove, hlinked, -⟩, hwave, hrest⟩ := hsound
      by_cases hpending : pending = []
      · subst hpending
        rw [if_pos rfl]
        have hstack' : s.StackSound (.wave id root tasks cleanupFrames :: rest) := ⟨hwave, hrest⟩
        apply h.restack hstack'
        intro n c
        rw [hstack, stackCount_cons, stackCount_cons, stackCount_cons]
        simp [Frame.pendingCount]
      · rw [if_neg hpending]
        apply h.restack
        · refine ⟨?_, hrest⟩
          constructor
          case recent => exact WaveSound.recent hwave
          case last => exact WaveSound.last hwave
          case idle => exact fun _ => hnone
          case sound => exact WaveSound.sound hwave
          case alone =>
            intro n foreign hn hforeign
            obtain ⟨p, hp⟩ := hlinked n hn
            rw [hp] at hforeign
            cases hforeign
          case under =>
            intro f hf
            obtain rfl | hf := List.mem_cons.1 hf
            · exact hunder
            · exact WaveSound.under hwave f hf
          case above => exact List.pairwise_cons.2 ⟨habove, WaveSound.above hwave⟩
          case ran => exact fun e he hid => (hnone e he hid).elim
        · intro n c
          rw [hstack, stackCount_cons, stackCount_cons, stackCount_cons]
          simp only [Frame.pendingCount, framesCount_cons]
          omega
  | stopsParent hstack =>
      apply (h.runsCleanup hstack).adjust_keep (fun cell => Cell.Grows.stopParent cell)
      intro cell
      rw [Cell.stopParent]
      split
      · exact ⟨rfl, rfl, rfl, rfl⟩
      · exact ⟨rfl, rfl, rfl, rfl⟩
  | stopsTimer hstack =>
      apply (h.runsCleanup hstack).adjust_keep
      · exact fun _ => ⟨rfl, rfl, rfl, fun h => ⟨h, rfl, rfl⟩⟩
      · exact fun _ => ⟨rfl, rfl, rfl, rfl⟩
  | runsWork hstack =>
      apply (h.runsCleanup hstack).calls
      rintro n ⟨⟩
  | cleanupsEnd hstack =>
      rw [hstack] at hsound
      obtain ⟨hwave, hrest⟩ := hsound
      apply h.restack
      · refine ⟨?_, hrest⟩
        constructor
        case recent => exact WaveSound.recent hwave
        case last => exact WaveSound.last hwave
        case idle => exact WaveSound.idle hwave
        case sound => exact WaveSound.sound hwave
        case alone =>
          intro n foreign hn
          cases hn
        case under =>
          exact fun f hf => WaveSound.under hwave f (List.mem_cons_of_mem _ hf)
        case above => exact (List.pairwise_cons.1 (WaveSound.above hwave)).2
        case ran =>
          exact fun e he hid f hf => WaveSound.ran hwave e he hid f (List.mem_cons_of_mem _ hf)
      · intro n c
        rw [hstack, stackCount_cons, stackCount_cons]
        simp [Frame.pendingCount]
  | waveEnds hstack =>
      rw [hstack] at hsound
      apply h.restack hsound.2
      intro n c
      rw [hstack, stackCount_cons, Frame.pendingCount, framesCount_nil, Nat.zero_add]

end

/-- Nothing has been created. -/
theorem sound_initial :
  (initial : Machine κ ν ε).Sound
  := by
  constructor
  case grounded => exact grounded_initial
  case stack => exact ⟨trivial, trivial⟩
  case listening =>
    intro n child cell hcell
    cases hcell
  case recent =>
    intro e he
    cases he
  case ended =>
    intro e he
    cases he
  case ordered => exact List.Pairwise.nil
  case once =>
    constructor
    case nodup =>
      intro n cell hcell
      cases hcell
    case live =>
      intro n cell hcell
      cases hcell
    case count => exact fun n c => rfl

/-- The states of the runs are sound. -/
theorem Reachable.sound [DecidableEq κ] (h : Reachable (fun s => ¬ s.InWave) s) :
  s.Sound
  := by
  induction h with
  | refl => exact sound_initial
  | tail _ hstep ih => exact hstep.sound ih

/-! ### Once and in order -/

/-- What the cleanups of the contexts have to do. -/
structure CleanedUp [DecidableEq κ] (s : Machine κ ν ε) : Prop where
  atMostOnce : ∀ (n : ℕ) (c : Cleanup), s.runCount n c ≤ 1
  /-- Only what was registered before the context ended runs. -/
  registered : ∀ {n : ℕ} {c : Cleanup}, s.runCount n c ≠ 0 →
    ∃ cell, s.cells n = some cell ∧ s.Ended n ∧ c ∈ cell.registered
  /-- All of it has run when no wave does. -/
  all : ¬ s.InWave → ∀ {n : ℕ} {cell : Cell κ ν ε}, s.cells n = some cell → s.Ended n →
    ∀ c ∈ cell.registered, s.runCount n c = 1
  /-- In a wave, no cleanup of a context runs before one of a context below it. -/
  ordered : s.ran.Pairwise (fun e e' => e.wave = e'.wave → e.node ∉ s.ancestors e'.node)
  /-- A wave goes on, unless code of a caller runs. -/
  proceeds : s.InWave →
    (∃ origin rest, s.stack = .code origin :: rest) ∨ ∃ s', Step (fun _ => False) s s'

/-- Nothing is to be run on a stack without waves. -/
theorem StackSound.stackCount_eq_zero {stack : List (Frame ε)} (h : s.StackSound stack)
    (hwaves : waves stack = []) (n : ℕ) (c : Cleanup) :
  stackCount n c stack = 0
  := by
  induction stack with
  | nil => rfl
  | cons frame rest ih =>
      cases frame with
      | code origin => rw [stackCount_cons, ih h.2 hwaves, Frame.pendingCount]
      | dispatch node listeners pending =>
          have hdispatch : s.DispatchSound node listeners rest := h.1
          cases rest with
          | nil => cases hdispatch
          | cons frame rest =>
              cases frame with
              | code | dispatch => cases hdispatch
              | wave id root tasks cleanupFrames => cases hwaves
      | wave id root tasks cleanupFrames => cases hwaves

/-- The methods of a foreign context that has not ended. -/
def quiet : ForeignMethods κ ν ε :=
  ⟨fun _ => none, fun _ => none, fun _ _ => .null⟩

/-- A wave goes on, unless code of a caller runs. -/
theorem Sound.proceeds [DecidableEq κ] (h : s.Sound) (hwave : s.InWave) :
  (∃ origin rest, s.stack = .code origin :: rest) ∨ ∃ s', Step (fun _ => False) s s'
  := by
  have hsound := h.stack
  cases hstack : s.stack with
  | nil =>
      obtain ⟨id, root, tasks, cleanupFrames, hmem⟩ := hwave
      rw [hstack] at hmem
      cases hmem
  | cons frame rest =>
      rw [hstack] at hsound
      cases frame with
      | code origin => exact .inl ⟨origin, rest, rfl⟩
      | dispatch node listeners pending =>
          right
          cases listeners with
          | nil =>
              have hdispatch : s.DispatchSound node [] rest := hsound.1
              cases rest with
              | nil => cases hdispatch
              | cons frame rest =>
                  cases frame with
                  | code | dispatch => cases hdispatch
                  | wave id root tasks cleanupFrames => exact ⟨_, .dispatched hstack⟩
          | cons listener listeners =>
              cases listener with
              | child child => exact ⟨_, .callsChild hstack⟩
              | raw callback => exact ⟨_, .callsRaw hstack⟩
      | wave id root tasks cleanupFrames =>
          right
          cases tasks with
          | nil =>
              cases cleanupFrames with
              | nil => exact ⟨_, .waveEnds hstack⟩
              | cons f cleanupFrames =>
                  obtain ⟨node, cleanups⟩ := f
                  cases cleanups with
                  | nil => exact ⟨_, .cleanupsEnd hstack⟩
                  | cons cleanup cleanups =>
                      cases cleanup with
                      | stopParent => exact ⟨_, .stopsParent hstack⟩
                      | stopTimer => exact ⟨_, .stopsTimer hstack⟩
                      | work callback => exact ⟨_, .runsWork hstack⟩
          | cons task tasks =>
              cases task with
              | own node failure ending => exact ⟨_, .takesOwn hstack⟩
              | fromParent node =>
                  have htask := WaveSound.sound hsound.1 _ List.mem_cons_self
                  obtain ⟨-, id, hlink⟩ | ⟨p, hlink, -⟩ := htask
                  · obtain ⟨cell, hcell, hdone⟩ := Option.bind_eq_some_iff.1 hlink
                    exact ⟨_, .readsParent hstack hcell hdone⟩
                  · obtain ⟨cell, hcell, hdone⟩ := Option.bind_eq_some_iff.1 hlink
                    exact ⟨_, .takesChild hstack hcell hdone quiet⟩

/-- Where the signals of foreign contexts are aborted only when no wave runs, each cleanup that
was registered before its context ended runs exactly once, and in a wave those of descendants run
before those of ancestors. -/
theorem cleanups_exact [DecidableEq κ] {s : Machine κ ν ε}
    (h : Reachable (fun s => ¬ s.InWave) s) :
  s.CleanedUp
  := by
  have hsound := h.sound
  have hreleased : ∀ {n : ℕ} {cell : Cell κ ν ε}, s.cells n = some cell → s.Ended n →
      ∀ c, s.released n c = cell.registered.count c := by
    intro n cell hcell hended c
    obtain ⟨failure, hended⟩ := hended
    rw [observed, hcell, Option.bind_some] at hended
    rw [released, hcell, Option.map_some, Option.getD_some, Cell.released, hended]
    rfl
  have hsome : ∀ {n : ℕ} {c : Cleanup}, s.runCount n c ≠ 0 →
      ∃ cell, s.cells n = some cell ∧ s.Ended n := by
    intro n c hne
    obtain ⟨e, hmem, he⟩ := List.countP_pos_iff.1 (Nat.pos_of_ne_zero hne)
    obtain ⟨rfl, -⟩ := of_decide_eq_true he
    obtain ⟨cell, hcell⟩ := (hsound.ended e hmem).exists_cell
    exact ⟨cell, hcell, hsound.ended e hmem⟩
  constructor
  case atMostOnce =>
    intro n c
    by_cases hne : s.runCount n c = 0
    · rw [hne]
      exact Nat.zero_le 1
    · obtain ⟨cell, hcell, hended⟩ := hsome hne
      have hcount := hsound.once.count n c
      rw [hreleased hcell hended] at hcount
      have hle := List.nodup_iff_count_le_one.1 (hsound.once.nodup hcell) c
      omega
  case registered =>
    intro n c hne
    obtain ⟨cell, hcell, hended⟩ := hsome hne
    have hcount := hsound.once.count n c
    rw [hreleased hcell hended] at hcount
    refine ⟨cell, hcell, hended, List.count_pos_iff.1 ?_⟩
    omega
  case all =>
    intro hidle n cell hcell hended c hc
    have hcount := hsound.once.count n c
    rw [hreleased hcell hended, hsound.stack.stackCount_eq_zero (waves_eq_nil hidle),
      List.count_eq_one_of_mem (hsound.once.nodup hcell) hc] at hcount
    exact hcount
  case ordered => exact hsound.ordered
  case proceeds => exact hsound.proceeds

/-- A context is cancelled, and its child with it: the cleanup of the child runs once. -/
theorem cleanups_exact_chain :
  ∃ s : Machine Unit Unit Unit, Reachable (fun s => ¬ s.InWave) s ∧ s.CleanedUp ∧
    s.ran = [⟨0, 1, .stopParent⟩] ∧ s.stack = [.code .host]
  := by
  have h : Reachable (fun s => ¬ s.InWave) (initial : Machine Unit Unit Unit) := .refl
  have h := h.tail (.withCancel rfl quiet false .background trivial)
  have h := h.tail
    (.withCancel rfl quiet false (.cancel 0 .background none) ⟨⟨_, rfl, rfl, rfl⟩, trivial⟩)
  have h := h.tail (.cancelFunc rfl 0 (.context .canceled) (by rintro ⟨⟩))
  have h := h.tail (.takesOwn rfl)
  have h := h.tail (.callsChild rfl)
  have h := h.tail (.dispatched rfl)
  have h := h.tail (.takesChild rfl rfl rfl quiet)
  have h := h.tail (.dispatched rfl)
  have h := h.tail (.stopsParent rfl)
  have h := h.tail (.cleanupsEnd rfl)
  have h := h.tail (.waveEnds rfl)
  exact ⟨_, h, cleanups_exact h, rfl, rfl⟩

/-- A listener of a grandchild of a foreign context aborts the signal of the foreign context
while the grandchild is being cancelled. The child ends in the same wave, and its cleanup runs
before that of the grandchild. -/
theorem foreignAbort_reorders :
  ¬ ∀ s : Machine Unit Unit Unit, Reachable (fun _ => True) s → s.CleanedUp
  := by
  intro hall
  have h : Reachable (fun _ => True) (initial : Machine Unit Unit Unit) := .refl
  have h := h.tail (.withCancel rfl quiet false (.foreign 0) trivial)
  have h := h.tail
    (.withCancel rfl quiet false (.cancel 0 (.foreign 0) none) ⟨⟨_, rfl, rfl, rfl⟩, trivial⟩)
  have h := h.tail (.addListener rfl 1 7)
  have h := h.tail (.cancelFunc rfl 1 (.context .canceled) (by rintro ⟨⟩))
  have h := h.tail (.takesOwn rfl)
  have h := h.tail (.callsRaw rfl)
  have h := h.tail (.foreignAborts rfl trivial 0 rfl rfl)
  have h := h.tail (.listenerEnds rfl)
  have h := h.tail (.dispatched rfl)
  have h := h.tail (.readsParent rfl rfl rfl)
  have h := h.tail (.parentRead rfl quiet rfl)
  have h := h.tail (.callsChild rfl)
  have h := h.tail (.dispatched rfl)
  have h := h.tail (.takesChild rfl rfl rfl quiet)
  have h := h.tail (.stopsParent rfl)
  have h := h.tail (.cleanupsEnd rfl)
  have h := h.tail (.stopsParent rfl)
  have hordered := (List.pairwise_cons.1 (hall _ h).ordered).1
  exact hordered ⟨0, 1, .stopParent⟩ List.mem_cons_self rfl List.mem_cons_self

end Machine

end ContextTree
