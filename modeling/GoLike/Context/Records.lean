import GoLike.Context.Growth
import Mathlib.Data.List.Basic
import Mathlib.Order.MinMax

/-!
# Deadlines and records

The deadline of a context is the least of those that were asked for on its path, up to the
nearest context that hides the cancellation of its parent. A context that has ended has recorded
its own cause, if its own deadline has ended it, and what its parent has recorded, if the end of
the parent has.
-/

namespace ContextTree

variable {κ ν ε : Type}

/-! ### Deadlines -/

/-- The deadline that a new context has of its own. -/
def ownDeadline (parentEpoch : Option ℤ) (requestedEpoch : ℤ) : Option ℤ :=
  match parentEpoch with
  | some parentEpoch => if parentEpoch < requestedEpoch then none else some requestedEpoch
  | none => some requestedEpoch

/-- A context has its own deadline when that was asked for and its parent had none that is
earlier. -/
def Cell.Chosen (cell : Cell κ ν ε) : Prop :=
  match cell.requested with
  | none => cell.deadlineEpoch = none
  | some (epoch, _) =>
      ∃ methods : ForeignMethods κ ν ε,
        cell.deadlineEpoch = ownDeadline (cell.parent.resolveDeadline methods) epoch

/-- Of contexts of this package the deadline does not depend on the methods of others. -/
theorem Context.BuiltIn.resolveDeadline_eq {ctx : Context κ ν} (h : ctx.BuiltIn)
    (methods methods' : ForeignMethods κ ν ε) :
  ctx.resolveDeadline methods = ctx.resolveDeadline methods'
  := by
  induction ctx with
  | background | withoutCancel => rfl
  | foreign id => exact h.elim
  | value parent key storedValue ih => exact ih h
  | cancel node parent deadlineEpoch ih =>
      cases deadlineEpoch with
      | none => exact ih h
      | some epoch => rfl

namespace Machine

/-- The deadlines that were asked for on the path of a context, up to the nearest one that hides
the cancellation of its parent. -/
def deadlines (s : Machine κ ν ε) : Context κ ν → List ℤ
  | .background => []
  | .foreign _ => []
  | .value parent _ _ => s.deadlines parent
  | .withoutCancel _ => []
  | .cancel node parent _ =>
      (((s.cells node).bind Cell.requested).map Prod.fst).toList ++ s.deadlines parent

variable {s : Machine κ ν ε}

/-- The deadline of a context is the least of those that were asked for. -/
theorem resolveDeadline_eq_min
    (hchosen : ∀ {n : ℕ} {cell : Cell κ ν ε}, s.cells n = some cell → cell.Chosen)
    (methods : ForeignMethods κ ν ε) {ctx : Context κ ν} (hctx : s.Knows ctx)
    (hbuiltIn : ctx.BuiltIn) :
  ctx.resolveDeadline methods = (s.deadlines ctx).min?
  := by
  induction ctx with
  | background | withoutCancel => rfl
  | foreign id => exact hbuiltIn.elim
  | value parent key storedValue ih => exact ih hctx hbuiltIn
  | cancel node parent deadlineEpoch ih =>
      obtain ⟨⟨cell, hcell, hparent, hdeadline⟩, hknown⟩ := hctx
      have hparentBuiltIn : parent.BuiltIn := hbuiltIn
      have hparents := ih hknown hparentBuiltIn
      have hown := hchosen hcell
      rw [Cell.Chosen] at hown
      rw [deadlines, hcell, Option.bind_some, ← hdeadline]
      cases hrequested : cell.requested with
      | none =>
          rw [hrequested] at hown
          rw [hown]
          exact hparents
      | some request =>
          rw [hrequested] at hown
          obtain ⟨methods', hown⟩ := hown
          rw [hparent, hparentBuiltIn.resolveDeadline_eq methods' methods, hparents] at hown
          rw [hown, Option.map_some, Option.toList_some, List.singleton_append, List.min?_cons]
          cases hmin : (s.deadlines parent).min? with
          | none => rfl
          | some least =>
              rw [hmin] at hparents
              rw [ownDeadline, Option.elim_some]
              split
              · rename_i hlt
                rw [min_eq_right hlt.le]
                exact hparents
              · rename_i hlt
                rw [min_eq_left (not_lt.1 hlt)]
                rfl

/-! ### Records -/

/-- What has been recorded of a parent that has ended: the record of the parent, if it is a context
of this package. -/
def RecordedOf (s : Machine κ ν ε) (parent : Context κ ν) (failure : Failure ε) : Prop :=
  (∃ id, parent.resolveDone = some (.foreign id)) ∨
    ∃ p, parent.resolveDone = some (.node p) ∧ s.observed p = some failure

/-- What a context has recorded, by what has ended it. -/
def RecordedBy (s : Machine κ ν ε) (cell : Cell κ ν ε) (failure : Failure ε) : Ending → Prop
  | .ownDeadline =>
      ∃ epoch cause, cell.requested = some (epoch, cause) ∧ cell.deadlineEpoch = some epoch ∧
        failure = ⟨.deadlineExceeded, cause⟩
  | .cancelFunc => failure.err = .canceled
  | .parentEnd => s.RecordedOf cell.parent failure

/-- What holds of a context. -/
structure CellRecorded (s : Machine κ ν ε) (n : ℕ) (cell : Cell κ ν ε) : Prop where
  chosen : cell.Chosen
  timer : cell.timer = true →
    ∃ epoch cause, cell.requested = some (epoch, cause) ∧ cell.deadlineEpoch = some epoch
  listening : ∀ child, .child child ∈ cell.listeners → s.link child = some (.node n)
  record : ∀ failure, cell.observed = some failure →
    ∃ ending, cell.endedBy = some ending ∧ s.RecordedBy cell failure ending

/-- What holds of a task: what it is to record, or that the parent has ended. -/
def TaskRecorded (s : Machine κ ν ε) : Task ε → Prop
  | .own node failure ending =>
      ∃ cell, s.cells node = some cell ∧ s.RecordedBy cell failure ending
  | .fromParent node =>
      (∃ id, s.link node = some (.foreign id)) ∨
        ∃ p failure, s.link node = some (.node p) ∧ s.observed p = some failure

/-- What holds of a frame. -/
def FrameRecorded (s : Machine κ ν ε) : Frame ε → Prop
  | .code (.reading node) => ∃ id, s.link node = some (.foreign id)
  | .code _ => True
  | .dispatch node listeners _ =>
      (∃ failure, s.observed node = some failure) ∧
        ∀ child, .child child ∈ listeners → s.link child = some (.node node)
  | .wave _ _ tasks _ => ∀ task ∈ tasks, s.TaskRecorded task

/-- What holds of the states of a run. -/
structure Recorded (s : Machine κ ν ε) : Prop where
  grounded : Grounded s
  cells : ∀ {n : ℕ} {cell : Cell κ ν ε}, s.cells n = some cell → s.CellRecorded n cell
  frames : ∀ frame ∈ s.stack, s.FrameRecorded frame

variable {s' : Machine κ ν ε} {cell : Cell κ ν ε} {failure : Failure ε} {ending : Ending}

/-- What a context has recorded stays right. -/
theorem RecordedBy.mono (h : Extends s s') {cell' : Cell κ ν ε} (hgrows : Cell.Grows cell cell')
    (hrecorded : s.RecordedBy cell failure ending) :
  s'.RecordedBy cell' failure ending
  := by
  cases ending with
  | ownDeadline =>
      obtain ⟨epoch, cause, hrequested, hdeadline, hfailure⟩ := hrecorded
      exact ⟨epoch, cause, hgrows.requested.trans hrequested,
        hgrows.deadlineEpoch.trans hdeadline, hfailure⟩
  | cancelFunc => exact hrecorded
  | parentEnd =>
      rw [RecordedBy, RecordedOf, hgrows.parent]
      obtain hforeign | ⟨p, hp, hobserved⟩ := hrecorded
      · exact .inl hforeign
      · exact .inr ⟨p, hp, h.observed hobserved⟩

variable {n : ℕ}

/-- What holds of a context holds after a change that keeps its record, its timer and its
listeners. -/
theorem CellRecorded.mono (h : Extends s s') {cell' : Cell κ ν ε} (hcell : s.CellRecorded n cell)
    (hgrows : Cell.Grows cell cell')
    (hrecord : cell'.observed = cell.observed ∧ cell'.endedBy = cell.endedBy)
    (htimer : cell'.timer = true → cell.timer = true ∨ ∃ epoch cause, cell.requested = some (epoch, cause) ∧ cell.deadlineEpoch = some epoch)
    (hlisteners : ∀ child, .child child ∈ cell'.listeners → .child child ∈ cell.listeners ∨ s'.link child = some (.node n)) :
  s'.CellRecorded n cell'
  := by
  constructor
  case chosen =>
    have hchosen := hcell.chosen
    rw [Cell.Chosen] at hchosen ⊢
    rw [hgrows.requested, hgrows.deadlineEpoch, hgrows.parent]
    exact hchosen
  case timer =>
    intro harmed
    rw [hgrows.requested, hgrows.deadlineEpoch]
    obtain harmed | hown := htimer harmed
    · exact hcell.timer harmed
    · exact hown
  case listening =>
    intro child hchild
    obtain hchild | hlink := hlisteners child hchild
    · exact h.link (hcell.listening child hchild)
    · exact hlink
  case record =>
    intro failure hfailure
    rw [hrecord.1] at hfailure
    obtain ⟨ending, hending, hrecorded⟩ := hcell.record failure hfailure
    exact ⟨ending, hrecord.2.trans hending, hrecorded.mono h hgrows⟩

variable {task : Task ε}

/-- What holds of a task stays so. -/
theorem TaskRecorded.mono (h : Extends s s') (htask : s.TaskRecorded task) :
  s'.TaskRecorded task
  := by
  cases task with
  | own node failure ending =>
      obtain ⟨cell, hcell, hrecorded⟩ := htask
      obtain ⟨cell', hcell', hgrows⟩ := h.cells hcell
      exact ⟨cell', hcell', hrecorded.mono h hgrows⟩
  | fromParent node =>
      obtain ⟨id, hlink⟩ | ⟨p, failure, hlink, hfailure⟩ := htask
      · exact .inl ⟨id, h.link hlink⟩
      · exact .inr ⟨p, failure, h.link hlink, h.observed hfailure⟩

/-- What holds of a frame stays so. -/
theorem FrameRecorded.mono (h : Extends s s') {frame : Frame ε} (hframe : s.FrameRecorded frame) :
  s'.FrameRecorded frame
  := by
  cases frame with
  | code origin =>
      cases origin with
      | host | listener | cleanup => trivial
      | reading node =>
          obtain ⟨id, hlink⟩ := hframe
          exact ⟨id, h.link hlink⟩
  | dispatch node listeners pending =>
      obtain ⟨⟨failure, hfailure⟩, hlinks⟩ := hframe
      exact ⟨⟨failure, h.observed hfailure⟩, fun child hchild => h.link (hlinks child hchild)⟩
  | wave id root tasks cleanupFrames => exact fun task htask => (hframe task htask).mono h

/-- The tree grows, and what is new is right. -/
theorem Recorded.evolve (h : s.Recorded) (he : Evolves s s')
    (hcells : ∀ {n : ℕ} {cell : Cell κ ν ε}, s'.cells n = some cell → s.cells n = some cell ∨ s'.CellRecorded n cell)
    (hframes : ∀ frame ∈ s'.stack, s.FrameRecorded frame ∨ s'.FrameRecorded frame) :
  s'.Recorded
  := by
  constructor
  case grounded => exact he.grounded
  case cells =>
    intro n cell hcell
    obtain hcell | hrecorded := hcells hcell
    · exact (h.cells hcell).mono he.extends_ (.refl cell) ⟨rfl, rfl⟩ .inl (fun _ => .inl)
    · exact hrecorded
  case frames =>
    intro frame hframe
    obtain hframe | hframe := hframes frame hframe
    · exact hframe.mono he.extends_
    · exact hframe

/-- The stack changes, and what is new on it is right. -/
theorem Recorded.restack (h : s.Recorded) {stack : List (Frame ε)} {ran : List Execution}
    (hframes : ∀ frame ∈ stack, s.FrameRecorded frame) :
  ({ s with stack := stack, ran := ran } : Machine κ ν ε).Recorded
  := by
  have hevolves : Evolves s { s with stack := stack, ran := ran } :=
    Evolves.of_cells h.grounded rfl rfl (le_refl s.nextWave)
  apply h.evolve hevolves
  · exact fun hcell => .inl hcell
  · exact fun frame hframe => .inl (hframes frame hframe)

/-- A cell changes, but not its record. -/
theorem Recorded.adjust (h : s.Recorded) {f : Cell κ ν ε → Cell κ ν ε}
    (hgrows : ∀ cell, Cell.Grows cell (f cell))
    (hrecord : ∀ cell, (f cell).observed = cell.observed ∧ (f cell).endedBy = cell.endedBy)
    (htimer : ∀ cell, s.cells n = some cell → (f cell).timer = true → cell.timer = true ∨ ∃ epoch cause, cell.requested = some (epoch, cause) ∧ cell.deadlineEpoch = some epoch)
    (hlisteners : ∀ cell child, s.cells n = some cell → .child child ∈ (f cell).listeners → .child child ∈ cell.listeners ∨ s.link child = some (.node n)) :
  (s.adjust n f).Recorded
  := by
  have hevolves := evolves_adjust h.grounded (n := n) (fun cell _ => hgrows cell)
  apply h.evolve hevolves _ (fun frame hframe => .inl (h.frames frame hframe))
  intro m cell hcell
  by_cases hm : m = n
  · subst hm
    right
    rw [adjust_cells_same, Option.map_eq_some_iff] at hcell
    obtain ⟨cell, hcell, rfl⟩ := hcell
    apply (h.cells hcell).mono hevolves.extends_ (hgrows cell) (hrecord cell)
      (htimer cell hcell)
    intro child hchild
    exact (hlisteners cell child hcell hchild).imp_right hevolves.extends_.link
  · left
    rw [adjust_cells_of_ne s hm] at hcell
    exact hcell

/-- A cell changes, but not its record, its timer and its listeners. -/
theorem Recorded.adjust_keep (h : s.Recorded) {f : Cell κ ν ε → Cell κ ν ε}
    (hgrows : ∀ cell, Cell.Grows cell (f cell))
    (hf : ∀ cell, (f cell).observed = cell.observed ∧ (f cell).endedBy = cell.endedBy ∧ ((f cell).timer = true → cell.timer = true) ∧ (f cell).listeners = cell.listeners) :
  (s.adjust n f).Recorded
  := by
  apply h.adjust hgrows (fun cell => ⟨(hf cell).1, (hf cell).2.1⟩)
  · exact fun cell _ harmed => .inl ((hf cell).2.2.1 harmed)
  · intro cell child _ hchild
    rw [(hf cell).2.2.2] at hchild
    exact .inl hchild

/-- A cleanup is registered. -/
theorem Recorded.addCleanup (h : s.Recorded) (n : ℕ) (cleanup : Cleanup) :
  (s.addCleanup n cleanup).Recorded
  := by
  apply h.adjust_keep (fun cell => Cell.Grows.addCleanup cell cleanup)
  intro cell
  rw [Cell.addCleanup]
  split
  · exact ⟨rfl, rfl, id, rfl⟩
  · exact ⟨rfl, rfl, id, rfl⟩

/-- A listener is added: one of a caller, or one of a child. -/
theorem Recorded.addListener (h : s.Recorded) (n : ℕ) {listener : Listener}
    (hlistener : ∀ child, listener = .child child → s.link child = some (.node n)) :
  (s.addListener n listener).Recorded
  := by
  apply h.adjust (f := fun cell => { cell with listeners := cell.listeners ++ [listener] })
    (fun _ => ⟨rfl, rfl, rfl, fun h => ⟨h, rfl, rfl⟩⟩) (fun _ => ⟨rfl, rfl⟩)
    (fun _ _ => .inl)
  intro cell child _ hchild
  obtain hchild | hchild := List.mem_append.1 hchild
  · exact .inl hchild
  · exact .inr (hlistener child (List.mem_singleton.1 hchild).symm)

/-- A wave is run. -/
theorem Recorded.runCancellationWave (h : s.Recorded) {root : ℕ} (htask : s.TaskRecorded task) :
  (s.runCancellationWave root task).Recorded
  := by
  apply h.evolve (evolves_runCancellationWave h.grounded root task) (fun hcell => .inl hcell)
  intro frame hframe
  left
  obtain rfl | hframe := List.mem_cons.1 hframe
  · intro task' htask'
    rw [List.mem_singleton.1 htask']
    exact htask
  · exact h.frames frame hframe

/-- A context is cancelled, and what it is to record is right. -/
theorem Recorded.cancel (h : s.Recorded) (hcell : s.cells n = some cell)
    (hrecorded : s.RecordedBy cell failure ending) :
  (s.cancel n failure ending).Recorded
  := by
  rw [Machine.cancel]
  cases s.observed n with
  | some _ => exact h
  | none => exact h.runCancellationWave ⟨cell, hcell, hrecorded⟩

/-- A context is ended, and what it records is right. -/
theorem Recorded.settle (h : s.Recorded)
    (hrecorded : ∀ {cell : Cell κ ν ε}, s.cells n = some cell → s.RecordedBy cell failure ending) :
  (s.settle n failure ending).Recorded
  := by
  have hevolves := evolves_settle h.grounded n failure ending
  obtain ⟨cell, hcell, hobserved⟩ | hended := s.settles_or n
  · rw [settle_of_live hcell hobserved] at hevolves ⊢
    apply h.evolve hevolves
    · intro m cell' hcell'
      by_cases hm : m = n
      · subst hm
        right
        rw [adjust_cells_same, hcell] at hcell'
        obtain rfl := Option.some.inj hcell'
        have hold := h.cells hcell
        constructor
        case chosen => exact hold.chosen
        case timer => exact hold.timer
        case listening =>
          exact fun child hchild => hevolves.extends_.link (hold.listening child hchild)
        case record =>
          rintro failure' ⟨⟩
          refine ⟨ending, rfl, ?_⟩
          have hgrows : Cell.Grows cell (Cell.finish failure ending cell) := by
            refine ⟨rfl, rfl, rfl, ?_⟩
            intro failure' hended
            rw [hobserved] at hended
            cases hended
          exact (hrecorded hcell).mono hevolves.extends_ hgrows
      · left
        rw [adjust_cells_of_ne _ hm] at hcell'
        exact hcell'
    · intro frame hframe
      obtain rfl | hframe := List.mem_cons.1 hframe
      · right
        refine ⟨⟨failure, ?_⟩, ?_⟩
        · rw [observed, adjust_cells_same, hcell]
          rfl
        · exact fun child hchild => hevolves.extends_.link ((h.cells hcell).listening child hchild)
      · exact .inl (h.frames frame hframe)
  · rw [settle_of_ended hended]
    exact h

/-- What is on a stack after a task was queued was there before, or is a wave with the task. -/
theorem mem_enqueue {stack stack' : List (Frame ε)} (h : enqueue task stack = some stack')
    {frame : Frame ε} (hframe : frame ∈ stack') :
  frame ∈ stack ∨ ∃ id root tasks cleanupFrames,
    .wave id root tasks cleanupFrames ∈ stack ∧
      frame = .wave id root (tasks ++ [task]) cleanupFrames
  := by
  induction stack generalizing stack' with
  | nil => cases h
  | cons top rest ih =>
      have hrest : ∀ {rest'}, enqueue task rest = some rest' → frame ∈ rest' →
          frame ∈ top :: rest ∨ ∃ id root tasks cleanupFrames,
            .wave id root tasks cleanupFrames ∈ top :: rest ∧
              frame = .wave id root (tasks ++ [task]) cleanupFrames := by
        intro rest' hrest' hmem
        obtain hmem | ⟨id, root, tasks, cleanupFrames, hmem, heq⟩ := ih hrest' hmem
        · exact .inl (List.mem_cons_of_mem top hmem)
        · exact .inr ⟨id, root, tasks, cleanupFrames, List.mem_cons_of_mem top hmem, heq⟩
      cases top with
      | code | dispatch =>
          obtain ⟨rest', hrest', rfl⟩ := Option.map_eq_some_iff.1 h
          obtain rfl | hframe := List.mem_cons.1 hframe
          · exact .inl List.mem_cons_self
          · exact hrest hrest' hframe
      | wave id root tasks cleanupFrames =>
          obtain rfl := Option.some.inj h
          obtain rfl | hframe := List.mem_cons.1 hframe
          · exact .inr ⟨id, root, tasks, cleanupFrames, List.mem_cons_self, rfl⟩
          · exact .inl (List.mem_cons_of_mem _ hframe)

/-- The listener of a child is called after its parent has ended. -/
theorem Recorded.cancelFromParent (h : s.Recorded) (htask : s.TaskRecorded (.fromParent n)) :
  (s.cancelFromParent n).Recorded
  := by
  rw [Machine.cancelFromParent]
  split
  · have hmarked : (s.adjust n (fun cell => { cell with registration := .admitted })).Recorded := by
      apply h.adjust_keep
      · exact fun _ => ⟨rfl, rfl, rfl, fun h => ⟨h, rfl, rfl⟩⟩
      · exact fun _ => ⟨rfl, rfl, id, rfl⟩
    have htask' := htask.mono (evolves_adjust h.grounded (n := n)
      (f := fun cell => { cell with registration := .admitted })
      (fun _ _ => ⟨rfl, rfl, rfl, fun h => ⟨h, rfl, rfl⟩⟩)).extends_
    generalize s.adjust n (fun cell => { cell with registration := .admitted }) = s' at *
    rw [enqueueParentCancellation]
    cases hqueue : enqueue (.fromParent n) s'.stack with
    | none => exact hmarked.runCancellationWave htask'
    | some stack =>
        apply hmarked.restack
        intro frame hframe
        obtain hframe | ⟨id, root, tasks, cleanupFrames, hmem, rfl⟩ := mem_enqueue hqueue hframe
        · exact hmarked.frames frame hframe
        · intro task hmem'
          obtain hmem' | hmem' := List.mem_append.1 hmem'
          · exact hmarked.frames _ hmem task hmem'
          · rw [List.mem_singleton.1 hmem']
            exact htask'
  · exact h

variable {parent : Context κ ν}

/-- What a new context records of a parent that has ended is what the parent has recorded. -/
theorem initialFailure_eq [DecidableEq κ] {methods : ForeignMethods κ ν ε} {foreignAborted : Bool}
    (h : s.initialFailure methods foreignAborted parent = some failure) :
  s.RecordedOf parent failure
  := by
  cases hdone : parent.resolveDone with
  | none =>
      simp only [initialFailure, hdone] at h
      cases h
  | some signal =>
      cases signal with
      | foreign id => exact .inl ⟨id, hdone⟩
      | node p =>
          cases hobserved : s.observed p with
          | none =>
              simp only [initialFailure, hdone, hobserved, Option.isSome_none,
                Bool.false_eq_true, if_false] at h
              cases h
          | some recorded =>
              simp only [initialFailure, hdone, hobserved, Option.isSome_some, if_true] at h
              rw [Context.readParentFailure_of_resolveDone methods hdone hobserved] at h
              exact .inr ⟨p, hdone, hobserved.trans h⟩

/-- A context is created, with the deadline that it is to have. -/
theorem Recorded.newCancelContext (h : s.Recorded) (hparent : s.Knows parent)
    {deadlineEpoch : Option ℤ} {requested : Option (ℤ × ErrorValue ε)}
    {failure : Option (Failure ε)}
    (hchosen : (newCell parent deadlineEpoch requested failure).Chosen)
    (hfailure : ∀ {f : Failure ε}, failure = some f → s.RecordedOf parent f) :
  (s.newCancelContext parent deadlineEpoch requested failure).Recorded
  := by
  have hevolves := evolves_registerCancelNode h.grounded hparent deadlineEpoch requested failure
  have hcreated : (s.registerCancelNode parent deadlineEpoch requested failure).Recorded := by
    apply h.evolve hevolves _ (fun frame hframe => .inl (h.frames frame hframe))
    intro n cell hcell
    by_cases hn : n = s.next
    · subst hn
      right
      rw [registerCancelNode_cells_same] at hcell
      obtain rfl := Option.some.inj hcell
      constructor
      case chosen => exact hchosen
      case timer => rintro ⟨⟩
      case listening =>
        intro child hchild
        cases hchild
      case record =>
        intro f hf
        refine ⟨.parentEnd, ?_, ?_⟩
        · change failure = some f at hf
          rw [newCell, hf, Option.map_some]
        · obtain hforeign | ⟨p, hp, hobserved⟩ := hfailure hf
          · exact .inl hforeign
          · exact .inr ⟨p, hp, hevolves.extends_.observed hobserved⟩
    · left
      rw [registerCancelNode_cells_of_ne s hn] at hcell
      exact hcell
  rw [Machine.newCancelContext]
  cases hdone : parent.resolveDone with
  | none => exact hcreated
  | some signal =>
      cases signal with
      | foreign id => exact hcreated
      | node node =>
          cases failure with
          | some failure => exact hcreated
          | none =>
              apply hcreated.addListener
              rintro child ⟨⟩
              rw [link, registerCancelNode_cells_same, Option.bind_some, newCell, hdone]

/-- A new context is found under its node. -/
theorem newCancelContext_cell (s : Machine κ ν ε) (hs : Grounded s) (hparent : s.Knows parent)
    (deadlineEpoch : Option ℤ) (requested : Option (ℤ × ErrorValue ε))
    (failure : Option (Failure ε)) :
  ∃ cell, (s.newCancelContext parent deadlineEpoch requested failure).cells s.next = some cell ∧
    cell.requested = requested ∧ cell.deadlineEpoch = deadlineEpoch
  := by
  have hcreated := evolves_registerCancelNode hs hparent deadlineEpoch requested failure
  have hcell := registerCancelNode_cells_same s parent deadlineEpoch requested failure
  rw [Machine.newCancelContext]
  split
  · split
    · exact ⟨_, hcell, rfl, rfl⟩
    · obtain ⟨cell, hcell', hgrows⟩ :=
        (evolves_addListener hcreated.grounded _ _).extends_.cells hcell
      exact ⟨cell, hcell', hgrows.requested, hgrows.deadlineEpoch⟩
  · exact ⟨_, hcell, rfl, rfl⟩

/-- The timer of a context with a deadline of its own is started. -/
theorem Recorded.startDeadlineTimer (h : s.Recorded) (hcell : s.cells n = some cell) {epoch : ℤ}
    {cause : ErrorValue ε} (hrequested : cell.requested = some (epoch, cause))
    (hdeadline : cell.deadlineEpoch = some epoch) (start : TimerStart) :
  (s.startDeadlineTimer n cause start).Recorded
  := by
  have hadd := h.addCleanup n .stopTimer
  obtain ⟨cell', hcell', hgrows⟩ :=
    (evolves_addCleanup h.grounded n .stopTimer).extends_.cells hcell
  cases start with
  | clockFails => exact h.cancel hcell rfl
  | due => exact h.cancel hcell ⟨epoch, cause, hrequested, hdeadline, rfl⟩
  | armed =>
      apply hadd.adjust (f := fun cell => { cell with timer := true })
        (fun _ => ⟨rfl, rfl, rfl, fun h => ⟨h, rfl, rfl⟩⟩) (fun _ => ⟨rfl, rfl⟩)
      · intro cell'' hcell'' _
        obtain rfl := Option.some.inj (hcell'.symm.trans hcell'')
        exact .inr ⟨epoch, cause, hgrows.requested.trans hrequested,
          hgrows.deadlineEpoch.trans hdeadline⟩
      · exact fun _ _ _ => .inl
  | timerFails => exact hadd.cancel hcell' rfl

/-- A context with a deadline is created. -/
theorem Recorded.newTimedContext (h : s.Recorded) (methods : ForeignMethods κ ν ε)
    (hparent : s.Knows parent) (requestedEpoch : ℤ) (cause : ErrorValue ε)
    {failure : Option (Failure ε)}
    (hfailure : ∀ {f : Failure ε}, failure = some f → s.RecordedOf parent f) (start : TimerStart) :
  (s.newTimedContext methods parent requestedEpoch cause failure start).Recorded
  := by
  have hown : some requestedEpoch =
        ownDeadline (parent.resolveDeadline methods) requestedEpoch →
      (newTimedContext.own s parent requestedEpoch cause failure start).Recorded := by
    intro hchosen
    have hcell : (newCell parent (some requestedEpoch) (some (requestedEpoch, cause))
        failure).Chosen := ⟨methods, hchosen⟩
    have hcreated := h.newCancelContext hparent hcell hfailure
    rw [newTimedContext.own]
    split
    · exact hcreated
    · obtain ⟨cell, hcell, hrequested, hdeadline⟩ := newCancelContext_cell s h.grounded hparent
        (some requestedEpoch) (some (requestedEpoch, cause)) failure
      exact hcreated.startDeadlineTimer hcell hrequested hdeadline start
  rw [Machine.newTimedContext]
  cases hepoch : parent.resolveDeadline methods with
  | none =>
      apply hown
      rw [hepoch, ownDeadline]
  | some parentEpoch =>
      by_cases hlt : parentEpoch < requestedEpoch
      · simp only [if_pos hlt]
        apply h.newCancelContext hparent _ hfailure
        refine ⟨methods, ?_⟩
        change none = ownDeadline (parent.resolveDeadline methods) requestedEpoch
        rw [hepoch, ownDeadline, if_pos hlt]
      · simp only [if_neg hlt]
        apply hown
        rw [hepoch, ownDeadline, if_neg hlt]

/-! ### Steps and runs -/

section

variable [DecidableEq κ] {aborts : Machine κ ν ε → Prop}

/-- Every step keeps the records right. -/
theorem Step.recorded {s s' : Machine κ ν ε} (h : s.Recorded) (hstep : Step aborts s s') :
  s'.Recorded
  := by
  have hframes := h.frames
  cases hstep with
  | withCancel _ methods foreignAborted parent hparent =>
      exact h.newCancelContext hparent rfl initialFailure_eq
  | withDeadline _ methods foreignAborted parent hparent requestedEpoch cause start =>
      exact h.newTimedContext methods hparent _ _ initialFailure_eq _
  | addCleanup _ node callback => exact h.addCleanup node _
  | addListener _ node callback =>
      apply h.addListener node
      rintro child ⟨⟩
  | cancelFunc _ node cause hnode =>
      cases hcell : s.cells node with
      | none => exact (hnode hcell).elim
      | some cell => exact h.cancel hcell rfl
  | deadline _ node hcell htimer hrequested =>
      obtain ⟨epoch, cause, hrequested', hdeadline⟩ := (h.cells hcell).timer htimer
      obtain ⟨⟩ := hrequested.symm.trans hrequested'
      exact h.cancel hcell ⟨_, _, hrequested', hdeadline, rfl⟩
  | foreignAborts _ haborts node hcell hparent =>
      apply h.cancelFromParent
      left
      exact ⟨_, by rw [link, hcell, Option.bind_some, hparent]⟩
  | listenerEnds hstack | cleanupEnds hstack | waveEnds hstack =>
      rw [hstack] at hframes
      exact h.restack (fun frame hframe => hframes frame (List.mem_cons_of_mem _ hframe))
  | parentRead hstack methods hcell =>
      rw [hstack] at hframes
      apply (h.restack (fun frame hframe => hframes frame (List.mem_cons_of_mem _ hframe))).settle
      intro cell' hcell'
      obtain rfl := Option.some.inj (hcell.symm.trans hcell')
      obtain ⟨id, hlink⟩ := hframes _ List.mem_cons_self
      rw [link, hcell, Option.bind_some] at hlink
      exact .inl ⟨id, hlink⟩
  | parentThrows hstack =>
      rw [hstack] at hframes
      exact h.restack (fun frame hframe =>
        hframes frame (List.mem_cons_of_mem _ (List.mem_cons_of_mem _ hframe)))
  | @takesOwn id root node failure ending tasks cleanupFrames rest hstack =>
      rw [hstack] at hframes
      have hwave : ∀ task ∈ .own node failure ending :: tasks, s.TaskRecorded task :=
        hframes _ List.mem_cons_self
      have hpop : ({ s with stack := .wave id root tasks cleanupFrames :: rest } :
          Machine κ ν ε).Recorded := by
        apply h.restack
        intro frame hframe
        obtain rfl | hframe := List.mem_cons.1 hframe
        · exact fun task htask => hwave task (List.mem_cons_of_mem _ htask)
        · exact hframes frame (List.mem_cons_of_mem _ hframe)
      apply hpop.settle
      intro cell hcell
      obtain ⟨cell', hcell', hrecorded⟩ := hwave _ List.mem_cons_self
      obtain rfl := Option.some.inj (hcell'.symm.trans hcell)
      cases ending with
      | ownDeadline | cancelFunc | parentEnd => exact hrecorded
  | @takesChild id root node tasks cleanupFrames rest hstack cell hcell parentNode hparent methods =>
      rw [hstack] at hframes
      have hwave : ∀ task ∈ .fromParent node :: tasks, s.TaskRecorded task :=
        hframes _ List.mem_cons_self
      have hpop : ({ s with stack := .wave id root tasks cleanupFrames :: rest } :
          Machine κ ν ε).Recorded := by
        apply h.restack
        intro frame hframe
        obtain rfl | hframe := List.mem_cons.1 hframe
        · exact fun task htask => hwave task (List.mem_cons_of_mem _ htask)
        · exact hframes frame (List.mem_cons_of_mem _ hframe)
      apply hpop.settle
      intro cell' hcell'
      obtain rfl := Option.some.inj (hcell.symm.trans hcell')
      have hlink : s.link node = some (.node parentNode) := by
        rw [link, hcell, Option.bind_some, hparent]
      obtain ⟨id, hforeign⟩ | ⟨p, failure, hlink', hfailure⟩ := hwave _ List.mem_cons_self
      · rw [hlink] at hforeign
        cases hforeign
      · rw [hlink] at hlink'
        cases hlink'
        rw [Context.readParentFailure_of_resolveDone methods hparent hfailure]
        exact .inr ⟨parentNode, hparent, hfailure⟩
  | @readsParent id root node tasks cleanupFrames rest hstack cell hcell foreign hparent =>
      rw [hstack] at hframes
      have hwave : ∀ task ∈ .fromParent node :: tasks, s.TaskRecorded task :=
        hframes _ List.mem_cons_self
      apply h.restack
      intro frame hframe
      obtain rfl | hframe := List.mem_cons.1 hframe
      · exact ⟨foreign, by rw [link, hcell, Option.bind_some, hparent]⟩
      · obtain rfl | hframe := List.mem_cons.1 hframe
        · exact fun task htask => hwave task (List.mem_cons_of_mem _ htask)
        · exact hframes frame (List.mem_cons_of_mem _ hframe)
  | @callsChild node child listeners pending rest hstack =>
      rw [hstack] at hframes
      obtain ⟨⟨failure, hfailure⟩, hlinks⟩ := hframes _ List.mem_cons_self
      have hpop : ({ s with stack := .dispatch node listeners pending :: rest } :
          Machine κ ν ε).Recorded := by
        apply h.restack
        intro frame hframe
        obtain rfl | hframe := List.mem_cons.1 hframe
        · exact ⟨⟨failure, hfailure⟩,
            fun child hchild => hlinks child (List.mem_cons_of_mem _ hchild)⟩
        · exact hframes frame (List.mem_cons_of_mem _ hframe)
      apply hpop.cancelFromParent
      exact .inr ⟨node, failure, hlinks child List.mem_cons_self, hfailure⟩
  | @callsRaw node callback listeners pending rest hstack =>
      rw [hstack] at hframes
      obtain ⟨hended, hlinks⟩ := hframes _ List.mem_cons_self
      apply h.restack
      intro frame hframe
      obtain rfl | hframe := List.mem_cons.1 hframe
      · trivial
      · obtain rfl | hframe := List.mem_cons.1 hframe
        · exact ⟨hended, fun child hchild => hlinks child (List.mem_cons_of_mem _ hchild)⟩
        · exact hframes frame (List.mem_cons_of_mem _ hframe)
  | @dispatched node id root pending tasks cleanupFrames rest hstack =>
      rw [hstack] at hframes
      have hwave : ∀ task ∈ tasks, s.TaskRecorded task :=
        hframes (.wave id root tasks cleanupFrames) (List.mem_cons_of_mem _ List.mem_cons_self)
      apply h.restack
      intro frame hframe
      obtain rfl | hframe := List.mem_cons.1 hframe
      · exact hwave
      · exact hframes frame (List.mem_cons_of_mem _ (List.mem_cons_of_mem _ hframe))
  | @stopsParent id root node cleanups cleanupFrames rest hstack =>
      rw [hstack] at hframes
      have hpop : ({ s with
          stack := .wave id root [] ((node, cleanups) :: cleanupFrames) :: rest
          ran := s.ran ++ [⟨id, node, .stopParent⟩] } : Machine κ ν ε).Recorded := by
        apply h.restack
        intro frame hframe
        obtain rfl | hframe := List.mem_cons.1 hframe
        · rintro task ⟨⟩
        · exact hframes frame (List.mem_cons_of_mem _ hframe)
      apply hpop.adjust_keep (fun cell => Cell.Grows.stopParent cell)
      intro cell
      rw [Cell.stopParent]
      split
      · exact ⟨rfl, rfl, fun h => h, rfl⟩
      · exact ⟨rfl, rfl, fun h => h, rfl⟩
  | @stopsTimer id root node cleanups cleanupFrames rest hstack =>
      rw [hstack] at hframes
      have hpop : ({ s with
          stack := .wave id root [] ((node, cleanups) :: cleanupFrames) :: rest
          ran := s.ran ++ [⟨id, node, .stopTimer⟩] } : Machine κ ν ε).Recorded := by
        apply h.restack
        intro frame hframe
        obtain rfl | hframe := List.mem_cons.1 hframe
        · rintro task ⟨⟩
        · exact hframes frame (List.mem_cons_of_mem _ hframe)
      apply hpop.adjust_keep
      · exact fun _ => ⟨rfl, rfl, rfl, fun h => ⟨h, rfl, rfl⟩⟩
      · exact fun _ => ⟨rfl, rfl, fun h => (Bool.false_ne_true h).elim, rfl⟩
  | @runsWork id root node callback cleanups cleanupFrames rest hstack =>
      rw [hstack] at hframes
      apply h.restack
      intro frame hframe
      obtain rfl | hframe := List.mem_cons.1 hframe
      · trivial
      · obtain rfl | hframe := List.mem_cons.1 hframe
        · rintro task ⟨⟩
        · exact hframes frame (List.mem_cons_of_mem _ hframe)
  | @cleanupsEnd id root node cleanupFrames rest hstack =>
      rw [hstack] at hframes
      apply h.restack
      intro frame hframe
      obtain rfl | hframe := List.mem_cons.1 hframe
      · rintro task ⟨⟩
      · exact hframes frame (List.mem_cons_of_mem _ hframe)

/-- The records of a run are right. -/
theorem Reachable.recorded {s : Machine κ ν ε} (h : Reachable aborts s) :
  s.Recorded
  := by
  induction h with
  | refl =>
      constructor
      case grounded => exact grounded_initial
      case cells =>
        intro n cell hcell
        cases hcell
      case frames =>
        intro frame hframe
        rw [List.mem_singleton.1 hframe]
        trivial
  | tail _ hstep ih => exact hstep.recorded ih

end

end Machine

end ContextTree
