import GoLike.Context.Wave
import Mathlib.Data.Nat.Basic

/-!
# The growth of a tree of contexts

Contexts are created under contexts that are known, and what a context is does not change: its
parent, its deadline, and, once it has ended, its record. So every step extends the tree, and
the nodes above a node are older than it.
-/

namespace ContextTree

variable {κ ν ε : Type}

/-! ### Extensions -/

/-- What a step keeps of a context. -/
structure Cell.Grows (cell cell' : Cell κ ν ε) : Prop where
  parent : cell'.parent = cell.parent
  deadlineEpoch : cell'.deadlineEpoch = cell.deadlineEpoch
  requested : cell'.requested = cell.requested
  observed : ∀ {failure : Failure ε}, cell.observed = some failure →
    cell'.observed = some failure ∧ cell'.endedBy = cell.endedBy ∧
      cell'.registered = cell.registered

/-- A context keeps what it is. -/
theorem Cell.Grows.refl (cell : Cell κ ν ε) :
  Cell.Grows cell cell
  := by
  constructor
  case parent => rfl
  case deadlineEpoch => rfl
  case requested => rfl
  case observed =>
    intro failure h
    exact ⟨h, rfl, rfl⟩

/-- What is kept twice is kept. -/
theorem Cell.Grows.trans {cell cell' cell'' : Cell κ ν ε} (h : Cell.Grows cell cell')
    (h' : Cell.Grows cell' cell'') :
  Cell.Grows cell cell''
  := by
  constructor
  case parent => rw [h'.parent, h.parent]
  case deadlineEpoch => rw [h'.deadlineEpoch, h.deadlineEpoch]
  case requested => rw [h'.requested, h.requested]
  case observed =>
    intro failure hobserved
    obtain ⟨hobserved', hending, hregistered⟩ := h.observed hobserved
    obtain ⟨hobserved'', hending', hregistered'⟩ := h'.observed hobserved'
    exact ⟨hobserved'', hending'.trans hending, hregistered'.trans hregistered⟩

namespace Machine

/-- The tree grows. -/
structure Extends (s s' : Machine κ ν ε) : Prop where
  nextWave : s.nextWave ≤ s'.nextWave
  cells : ∀ {n : ℕ} {cell : Cell κ ν ε}, s.cells n = some cell →
    ∃ cell', s'.cells n = some cell' ∧ Cell.Grows cell cell'

/-- Nothing changes. -/
theorem Extends.refl (s : Machine κ ν ε) :
  Extends s s
  := by
  constructor
  case nextWave => exact le_refl s.nextWave
  case cells =>
    intro n cell hcell
    exact ⟨cell, hcell, .refl cell⟩

variable {s s' : Machine κ ν ε}

/-- A tree that grows twice grows. -/
theorem Extends.trans {s'' : Machine κ ν ε} (h : Extends s s') (h' : Extends s' s'') :
  Extends s s''
  := by
  constructor
  case nextWave => exact Nat.le_trans h.nextWave h'.nextWave
  case cells =>
    intro n cell hcell
    obtain ⟨cell', hcell', hgrows⟩ := h.cells hcell
    obtain ⟨cell'', hcell'', hgrows'⟩ := h'.cells hcell'
    exact ⟨cell'', hcell'', hgrows.trans hgrows'⟩

variable {ctx : Context κ ν}

/-- A context stays known. -/
theorem Extends.knows (h : Extends s s') (hctx : s.Knows ctx) :
  s'.Knows ctx
  := by
  induction ctx with
  | background | foreign => trivial
  | value parent key storedValue ih | withoutCancel parent ih => exact ih hctx
  | cancel n parent deadlineEpoch ih =>
      obtain ⟨⟨cell, hcell, hparent, hdeadline⟩, hknows⟩ := hctx
      obtain ⟨cell', hcell', hgrows⟩ := h.cells hcell
      exact ⟨⟨cell', hcell', hgrows.parent.trans hparent,
        hgrows.deadlineEpoch.trans hdeadline⟩, ih hknows⟩

variable {n : ℕ}

/-- The record of a context is final. -/
theorem Extends.observed (h : Extends s s') {failure : Failure ε}
    (hobserved : s.observed n = some failure) :
  s'.observed n = some failure
  := by
  obtain ⟨cell, hcell, hcell_observed⟩ := Option.bind_eq_some_iff.1 hobserved
  obtain ⟨cell', hcell', hgrows⟩ := h.cells hcell
  rw [Machine.observed, hcell', Option.bind_some, (hgrows.observed hcell_observed).1]

/-! ### The tree -/

/-- The signal of the parent of a node. -/
def link (s : Machine κ ν ε) (node : ℕ) : Option Signal :=
  (s.cells node).bind (fun cell => cell.parent.resolveDone)

/-- The nodes above a node, the nearest first. -/
def ancestors (s : Machine κ ν ε) (node : ℕ) : List ℕ :=
  ((s.cells node).map (fun cell => cell.parent.nodes)).getD []

/-- Each context was created under one that was known. -/
structure Grounded (s : Machine κ ν ε) : Prop where
  fresh : ∀ {n : ℕ} {cell : Cell κ ν ε}, s.cells n = some cell → n < s.next
  known : ∀ {n : ℕ} {cell : Cell κ ν ε}, s.cells n = some cell → s.Knows cell.parent
  below : ∀ {n a : ℕ}, a ∈ s.ancestors n → a < n

/-- The nodes of a known context exist. -/
theorem Knows.exists_cell (h : s.Knows ctx) {a : ℕ} (ha : a ∈ ctx.nodes) :
  ∃ cell, s.cells a = some cell
  := by
  induction ctx with
  | background | foreign => cases ha
  | value parent key storedValue ih | withoutCancel parent ih => exact ih h ha
  | cancel n parent deadlineEpoch ih =>
      obtain ⟨⟨cell, hcell, -⟩, hknows⟩ := h
      obtain rfl | ha := List.mem_cons.1 ha
      · exact ⟨cell, hcell⟩
      · exact ih hknows ha

/-- The nodes of a known context are the one whose signal it has and those above it. -/
theorem Knows.nodes_eq (h : s.Knows ctx) {p : ℕ} (hlink : ctx.resolveDone = some (.node p)) :
  ctx.nodes = p :: s.ancestors p
  := by
  induction ctx with
  | background | foreign | withoutCancel => cases hlink
  | value parent key storedValue ih => exact ih h hlink
  | cancel n parent deadlineEpoch ih =>
      cases hlink
      obtain ⟨⟨cell, hcell, hparent, -⟩, -⟩ := h
      rw [ancestors, hcell, Option.map_some, Option.getD_some, hparent, Context.nodes]

/-- The nodes above a node exist. -/
theorem Grounded.exists_cell (hs : Grounded s) {a : ℕ} (ha : a ∈ s.ancestors n) :
  ∃ cell, s.cells a = some cell
  := by
  rw [ancestors] at ha
  cases hcell : s.cells n with
  | none =>
      rw [hcell] at ha
      cases ha
  | some cell =>
      rw [hcell] at ha
      exact (hs.known hcell).exists_cell ha

/-- Above a node are the one it is linked to and those above that one. -/
theorem Grounded.ancestors_eq (hs : Grounded s) {p : ℕ} (hlink : s.link n = some (.node p)) :
  s.ancestors n = p :: s.ancestors p
  := by
  obtain ⟨cell, hcell, hdone⟩ := Option.bind_eq_some_iff.1 hlink
  rw [ancestors, hcell, Option.map_some, Option.getD_some, (hs.known hcell).nodes_eq hdone]

/-- A link is kept. -/
theorem Extends.link (h : Extends s s') {signal : Signal} (hlink : s.link n = some signal) :
  s'.link n = some signal
  := by
  obtain ⟨cell, hcell, hdone⟩ := Option.bind_eq_some_iff.1 hlink
  obtain ⟨cell', hcell', hgrows⟩ := h.cells hcell
  rw [Machine.link, hcell', Option.bind_some, hgrows.parent, hdone]

/-- A node is linked to another one, over any number of links. -/
def Below (s : Machine κ ν ε) (root node : ℕ) : Prop :=
  Relation.TransGen (fun n p => s.link n = some (.node p)) node root

variable {root : ℕ}

/-- A node is younger than one that it is below. -/
theorem Grounded.lt_of_below (hs : Grounded s) (h : s.Below root n) :
  root < n
  := by
  have hlink : ∀ {n p : ℕ}, s.link n = some (.node p) → p < n := by
    intro n p hp
    apply hs.below
    rw [hs.ancestors_eq hp]
    exact List.mem_cons_self
  induction h with
  | single hp => exact hlink hp
  | tail _ hp ih => exact Nat.lt_trans (hlink hp) ih

/-- A node stays below another one. -/
theorem Extends.below (h : Extends s s') (hn : s.Below root n) :
  s'.Below root n
  := Relation.TransGen.mono (fun _ _ hp => h.link hp) _ _ hn

variable {cell : Cell κ ν ε}

/-- A node that exists was below another one before. -/
theorem Extends.below_back (hs : Grounded s) (h : Extends s s') (hcell : s.cells n = some cell)
    (hn : s'.Below root n) :
  s.Below root n
  := by
  have hback : ∀ {n p : ℕ} {cell : Cell κ ν ε}, s.cells n = some cell →
      s'.link n = some (.node p) → s.link n = some (.node p) := by
    intro n p cell hcell hp
    obtain ⟨cell', hcell', hgrows⟩ := h.cells hcell
    rw [Machine.link, hcell', Option.bind_some, hgrows.parent] at hp
    rw [Machine.link, hcell, Option.bind_some, hp]
  induction hn using Relation.TransGen.head_induction_on generalizing cell with
  | single hp => exact .single (hback hcell hp)
  | head hp _ ih =>
      have hlink := hback hcell hp
      have hmem : _ ∈ s.ancestors _ := (hs.ancestors_eq hlink) ▸ List.mem_cons_self
      obtain ⟨cell', hcell'⟩ := hs.exists_cell hmem
      exact .head hlink (ih hcell')

/-- The nodes above a node are kept. -/
theorem Extends.ancestors (h : Extends s s') (hcell : s.cells n = some cell) :
  s'.ancestors n = s.ancestors n
  := by
  obtain ⟨cell', hcell', hgrows⟩ := h.cells hcell
  rw [Machine.ancestors, Machine.ancestors, hcell, hcell', Option.map_some, Option.map_some,
    hgrows.parent]

/-! ### What the operations do to the tree -/

/-- A state evolves when its tree grows and stays grounded. -/
structure Evolves (s s' : Machine κ ν ε) : Prop where
  extends_ : Extends s s'
  grounded : Grounded s'

/-- What evolves twice evolves. -/
theorem Evolves.trans {s'' : Machine κ ν ε} (h : Evolves s s') (h' : Evolves s' s'') :
  Evolves s s''
  := ⟨h.extends_.trans h'.extends_, h'.grounded⟩

/-- A tree that grows without new nodes stays grounded. -/
theorem Evolves.of_extends (hs : Grounded s) (h : Extends s s') (hnext : s.next ≤ s'.next)
    (hnone : ∀ {n : ℕ}, s.cells n = none → s'.cells n = none) :
  Evolves s s'
  := by
  have hold : ∀ {n : ℕ} {cell' : Cell κ ν ε}, s'.cells n = some cell' →
      ∃ cell, s.cells n = some cell ∧ cell'.parent = cell.parent := by
    intro n cell' hcell'
    cases hcell : s.cells n with
    | none =>
        rw [hnone hcell] at hcell'
        cases hcell'
    | some cell =>
        obtain ⟨cell'', hcell'', hgrows⟩ := h.cells hcell
        obtain rfl := Option.some.inj (hcell'.symm.trans hcell'')
        exact ⟨cell, rfl, hgrows.parent⟩
  refine ⟨h, ?_⟩
  constructor
  case fresh =>
    intro n cell' hcell'
    obtain ⟨cell, hcell, -⟩ := hold hcell'
    exact Nat.lt_of_lt_of_le (hs.fresh hcell) hnext
  case known =>
    intro n cell' hcell'
    obtain ⟨cell, hcell, hparent⟩ := hold hcell'
    rw [hparent]
    exact h.knows (hs.known hcell)
  case below =>
    intro n a ha
    apply hs.below
    cases hcell : s.cells n with
    | none =>
        rw [Machine.ancestors, hnone hcell] at ha
        cases ha
    | some cell =>
        rw [← h.ancestors hcell]
        exact ha

/-- The cells stay as they are. -/
theorem Evolves.of_cells (hs : Grounded s) (hcells : s'.cells = s.cells) (hnext : s'.next = s.next)
    (hwave : s.nextWave ≤ s'.nextWave) :
  Evolves s s'
  := by
  apply Evolves.of_extends hs _ (Nat.le_of_eq hnext.symm)
  · intro n hnone
    rw [hcells, hnone]
  · constructor
    case nextWave => exact hwave
    case cells =>
      intro n cell hcell
      exact ⟨cell, hcells.symm ▸ hcell, .refl cell⟩

@[simp] theorem adjust_stack (s : Machine κ ν ε) (n : ℕ) (f : Cell κ ν ε → Cell κ ν ε) :
  (s.adjust n f).stack = s.stack
  := rfl

@[simp] theorem adjust_ran (s : Machine κ ν ε) (n : ℕ) (f : Cell κ ν ε → Cell κ ν ε) :
  (s.adjust n f).ran = s.ran
  := rfl

@[simp] theorem adjust_nextWave (s : Machine κ ν ε) (n : ℕ) (f : Cell κ ν ε → Cell κ ν ε) :
  (s.adjust n f).nextWave = s.nextWave
  := rfl

@[simp] theorem adjust_cells_same (s : Machine κ ν ε) (n : ℕ) (f : Cell κ ν ε → Cell κ ν ε) :
  (s.adjust n f).cells n = (s.cells n).map f
  := Function.update_self ..

@[simp] theorem adjust_next (s : Machine κ ν ε) (n : ℕ) (f : Cell κ ν ε → Cell κ ν ε) :
  (s.adjust n f).next = s.next
  := rfl

theorem adjust_cells_of_ne (s : Machine κ ν ε) {m : ℕ} (h : m ≠ n) (f : Cell κ ν ε → Cell κ ν ε) :
  (s.adjust n f).cells m = s.cells m
  := Function.update_of_ne h ..

@[simp] theorem registerCancelNode_cells_same (s : Machine κ ν ε) (parent : Context κ ν)
    (deadlineEpoch : Option ℤ) (requested : Option (ℤ × ErrorValue ε))
    (failure : Option (Failure ε)) :
  (s.registerCancelNode parent deadlineEpoch requested failure).cells s.next =
    some (newCell parent deadlineEpoch requested failure)
  := Function.update_self ..

variable {parent : Context κ ν}

theorem registerCancelNode_cells_of_ne (s : Machine κ ν ε) (h : n ≠ s.next)
    {deadlineEpoch : Option ℤ} {requested : Option (ℤ × ErrorValue ε)}
    {failure : Option (Failure ε)} :
  (s.registerCancelNode parent deadlineEpoch requested failure).cells n = s.cells n
  := Function.update_of_ne h ..

/-- The state of one node changes. -/
theorem evolves_adjust (hs : Grounded s) {f : Cell κ ν ε → Cell κ ν ε}
    (hf : ∀ cell, s.cells n = some cell → Cell.Grows cell (f cell)) :
  Evolves s (s.adjust n f)
  := by
  apply Evolves.of_extends hs _ (Nat.le_of_eq (adjust_next s n f).symm)
  · intro m hnone
    by_cases h : m = n
    · subst h
      rw [adjust_cells_same, hnone, Option.map_none]
    · rw [adjust_cells_of_ne s h, hnone]
  · constructor
    case nextWave => exact le_refl s.nextWave
    case cells =>
      intro m cell hcell
      by_cases h : m = n
      · subst h
        exact ⟨f cell, by rw [adjust_cells_same, hcell, Option.map_some], hf cell hcell⟩
      · exact ⟨cell, by rw [adjust_cells_of_ne s h, hcell], .refl cell⟩

/-- A context that has ended only takes cleanups that never run. -/
theorem Cell.Grows.addCleanup (cell : Cell κ ν ε) (cleanup : Cleanup) :
  Cell.Grows cell (cell.addCleanup cleanup)
  := by
  by_cases h : cleanup ∈ cell.cleanups
  · rw [Cell.addCleanup, if_pos h]
    exact .refl cell
  · rw [Cell.addCleanup, if_neg h]
    constructor
    case parent => rfl
    case deadlineEpoch => rfl
    case requested => rfl
    case observed =>
      intro failure hobserved
      refine ⟨hobserved, rfl, ?_⟩
      rw [if_neg]
      rw [hobserved]
      simp only [Option.isNone_some, Bool.false_eq_true, not_false_eq_true]

/-- The listener at the parent does not matter to what a context is. -/
theorem Cell.Grows.stopParent (cell : Cell κ ν ε) :
  Cell.Grows cell cell.stopParent
  := by
  by_cases h : cell.registration = .pending
  · rw [Cell.stopParent, if_pos h]
    exact ⟨rfl, rfl, rfl, fun h => ⟨h, rfl, rfl⟩⟩
  · rw [Cell.stopParent, if_neg h]
    exact .refl cell

/-- A cleanup is registered. -/
theorem evolves_addCleanup (hs : Grounded s) (n : ℕ) (cleanup : Cleanup) :
  Evolves s (s.addCleanup n cleanup)
  := evolves_adjust hs (fun cell _ => Cell.Grows.addCleanup cell cleanup)

/-- A listener is added. -/
theorem evolves_addListener (hs : Grounded s) (n : ℕ) (listener : Listener) :
  Evolves s (s.addListener n listener)
  := evolves_adjust hs (fun _ _ => ⟨rfl, rfl, rfl, fun h => ⟨h, rfl, rfl⟩⟩)

/-- A wave is run. -/
theorem evolves_runCancellationWave (hs : Grounded s) (root : ℕ) (task : Task ε) :
  Evolves s (s.runCancellationWave root task)
  := Evolves.of_cells hs rfl rfl (Nat.le_succ _)

/-- A context is cancelled. -/
theorem evolves_cancel (hs : Grounded s) (n : ℕ) (failure : Failure ε) (ending : Ending) :
  Evolves s (s.cancel n failure ending)
  := by
  rw [cancel]
  cases s.observed n with
  | some _ => exact ⟨.refl s, hs⟩
  | none => exact evolves_runCancellationWave hs n _

/-- The end of a child is queued. -/
theorem evolves_enqueueParentCancellation (hs : Grounded s) (n : ℕ) :
  Evolves s (s.enqueueParentCancellation n)
  := by
  rw [enqueueParentCancellation]
  cases enqueue (.fromParent n) s.stack with
  | some stack => exact Evolves.of_cells hs rfl rfl (le_refl s.nextWave)
  | none => exact evolves_runCancellationWave hs n _

/-- The listener of a child is called. -/
theorem evolves_cancelFromParent (hs : Grounded s) (n : ℕ) :
  Evolves s (s.cancelFromParent n)
  := by
  rw [cancelFromParent]
  cases (s.cells n).map Cell.registration with
  | none => exact ⟨.refl s, hs⟩
  | some registration =>
      cases registration with
      | pending =>
          have hadjust : Evolves s
              (s.adjust n (fun cell => { cell with registration := .admitted })) :=
            evolves_adjust hs (fun _ _ => ⟨rfl, rfl, rfl, fun h => ⟨h, rfl, rfl⟩⟩)
          exact hadjust.trans (evolves_enqueueParentCancellation hadjust.grounded n)
      | none | admitted | stopped => exact ⟨.refl s, hs⟩

/-- A context that has ended, or does not exist, is not ended again. -/
theorem settle_of_ended (h : ∀ cell, s.cells n = some cell → cell.observed ≠ none)
    (failure : Failure ε) (ending : Ending) :
  s.settle n failure ending = s
  := by
  rw [settle]
  cases hcell : s.cells n with
  | none => rfl
  | some cell =>
      cases hobserved : cell.observed with
      | none =>
          apply (h cell hcell hobserved).elim
      | some _ =>
          simp only [hobserved]

/-- A context that has not ended records why it does, and its signal is aborted. -/
theorem settle_of_live (hcell : s.cells n = some cell) (hobserved : cell.observed = none)
    (failure : Failure ε) (ending : Ending) :
  s.settle n failure ending =
    ({ s with stack := .dispatch n cell.listeners cell.cleanups :: s.stack } :
      Machine κ ν ε).adjust n (Cell.finish failure ending)
  := by
  rw [settle, hcell]
  simp only [hobserved]

/-- A context is one that can be ended, or not. -/
theorem settles_or (s : Machine κ ν ε) (n : ℕ) :
  (∃ cell, s.cells n = some cell ∧ cell.observed = none) ∨
    ∀ cell, s.cells n = some cell → cell.observed ≠ none
  := by
  by_cases h : ∃ cell, s.cells n = some cell ∧ cell.observed = none
  · exact .inl h
  · exact .inr (fun cell hcell hobserved => h ⟨cell, hcell, hobserved⟩)

/-- A context is ended. -/
theorem evolves_settle (hs : Grounded s) (n : ℕ) (failure : Failure ε) (ending : Ending) :
  Evolves s (s.settle n failure ending)
  := by
  obtain ⟨cell, hcell, hobserved⟩ | hended := s.settles_or n
  · rw [settle_of_live hcell hobserved]
    have hpush : Evolves s { s with
        stack := .dispatch n cell.listeners cell.cleanups :: s.stack } :=
      Evolves.of_cells hs rfl rfl (le_refl s.nextWave)
    apply hpush.trans (evolves_adjust hpush.grounded _)
    intro cell' hcell'
    obtain rfl := Option.some.inj (hcell.symm.trans hcell')
    refine ⟨rfl, rfl, rfl, ?_⟩
    intro failure' hended
    rw [hobserved] at hended
    cases hended
  · rw [settle_of_ended hended]
    exact ⟨.refl s, hs⟩

/-- The state of a new context is found under its node. -/
theorem evolves_registerCancelNode (hs : Grounded s) (hparent : s.Knows parent)
    (deadlineEpoch : Option ℤ) (requested : Option (ℤ × ErrorValue ε))
    (failure : Option (Failure ε)) :
  Evolves s (s.registerCancelNode parent deadlineEpoch requested failure)
  := by
  have hextends :
      Extends s (s.registerCancelNode parent deadlineEpoch requested failure) := by
    constructor
    case nextWave => exact le_refl s.nextWave
    case cells =>
      intro n cell hcell
      refine ⟨cell, ?_, .refl cell⟩
      rw [registerCancelNode_cells_of_ne _ (Nat.ne_of_lt (hs.fresh hcell)), hcell]
  refine ⟨hextends, ?_⟩
  constructor
  case fresh =>
    intro n cell hcell
    by_cases hn : n = s.next
    · subst hn
      exact Nat.lt_succ_self _
    · rw [registerCancelNode_cells_of_ne _ hn] at hcell
      exact Nat.lt_succ_of_lt (hs.fresh hcell)
  case known =>
    intro n cell hcell
    apply hextends.knows
    by_cases hn : n = s.next
    · subst hn
      rw [registerCancelNode_cells_same] at hcell
      obtain rfl := Option.some.inj hcell
      exact hparent
    · rw [registerCancelNode_cells_of_ne _ hn] at hcell
      exact hs.known hcell
  case below =>
    intro n a ha
    by_cases hn : n = s.next
    · subst hn
      rw [ancestors, registerCancelNode_cells_same, Option.map_some, Option.getD_some] at ha
      obtain ⟨cell, hcell⟩ := hparent.exists_cell ha
      exact hs.fresh hcell
    · rw [ancestors, registerCancelNode_cells_of_ne _ hn] at ha
      exact hs.below ha

/-- A context is created. -/
theorem evolves_newCancelContext (hs : Grounded s) (hparent : s.Knows parent)
    (deadlineEpoch : Option ℤ) (requested : Option (ℤ × ErrorValue ε))
    (failure : Option (Failure ε)) :
  Evolves s (s.newCancelContext parent deadlineEpoch requested failure)
  := by
  have hcreated := evolves_registerCancelNode hs hparent deadlineEpoch requested failure
  rw [newCancelContext]
  split
  · split
    · exact hcreated
    · exact hcreated.trans (evolves_addListener hcreated.grounded _ _)
  · exact hcreated

/-- The timer of a context is started. -/
theorem evolves_startDeadlineTimer (hs : Grounded s) (n : ℕ) (cause : ErrorValue ε)
    (start : TimerStart) :
  Evolves s (s.startDeadlineTimer n cause start)
  := by
  have hadd : Evolves s (s.addCleanup n .stopTimer) := evolves_addCleanup hs n _
  cases start with
  | clockFails | due => exact evolves_cancel hs n _ _
  | armed =>
      exact hadd.trans
        (evolves_adjust hadd.grounded (fun _ _ => ⟨rfl, rfl, rfl, fun h => ⟨h, rfl, rfl⟩⟩))
  | timerFails => exact hadd.trans (evolves_cancel hadd.grounded n _ _)

/-- A context with a deadline is created. -/
theorem evolves_newTimedContext (hs : Grounded s) (methods : ForeignMethods κ ν ε)
    (hparent : s.Knows parent) (requestedEpoch : ℤ) (cause : ErrorValue ε)
    (failure : Option (Failure ε)) (start : TimerStart) :
  Evolves s (s.newTimedContext methods parent requestedEpoch cause failure start)
  := by
  have hown : Evolves s
      (newTimedContext.own s parent requestedEpoch cause failure start) := by
    have hcreated := evolves_newCancelContext hs hparent (some requestedEpoch)
      (some (requestedEpoch, cause)) failure
    rw [newTimedContext.own]
    split
    · exact hcreated
    · exact hcreated.trans (evolves_startDeadlineTimer hcreated.grounded _ _ _)
  rw [newTimedContext]
  split
  · split
    · exact evolves_newCancelContext hs hparent _ _ _
    · exact hown
  · exact hown

/-! ### Steps and runs -/

/-- Nothing has been created. -/
theorem grounded_initial :
  Grounded (initial : Machine κ ν ε)
  := by
  constructor
  case fresh =>
    intro n cell hcell
    cases hcell
  case known =>
    intro n cell hcell
    cases hcell
  case below =>
    intro n a ha
    cases ha

section

variable [DecidableEq κ] {aborts : Machine κ ν ε → Prop}

variable {s s' : Machine κ ν ε}

/-- What is assumed of the states in which signals of foreign contexts are aborted only matters
where there is such a signal. -/
theorem Step.imp {aborts aborts' : Machine κ ν ε → Prop} (hstep : Step aborts s s')
    (himp : aborts s → (∃ n cell id, s.cells n = some cell ∧ cell.parent.resolveDone = some (.foreign id)) → aborts' s) :
  Step aborts' s s'
  := by
  cases hstep with
  | foreignAborts hstack haborts node hcell hparent =>
      exact .foreignAborts hstack (himp haborts ⟨node, _, _, hcell, hparent⟩) node hcell hparent
  | withCancel hstack methods foreignAborted parent hparent =>
      exact .withCancel hstack methods foreignAborted parent hparent
  | withDeadline hstack methods foreignAborted parent hparent requestedEpoch cause start =>
      exact .withDeadline hstack methods foreignAborted parent hparent requestedEpoch cause start
  | addCleanup hstack node callback => exact .addCleanup hstack node callback
  | addListener hstack node callback => exact .addListener hstack node callback
  | cancelFunc hstack node cause hnode => exact .cancelFunc hstack node cause hnode
  | deadline hstack node hcell htimer hrequested =>
      exact .deadline hstack node hcell htimer hrequested
  | listenerEnds hstack => exact .listenerEnds hstack
  | cleanupEnds hstack => exact .cleanupEnds hstack
  | parentRead hstack methods hcell => exact .parentRead hstack methods hcell
  | parentThrows hstack => exact .parentThrows hstack
  | takesOwn hstack => exact .takesOwn hstack
  | takesChild hstack hcell hparent methods => exact .takesChild hstack hcell hparent methods
  | readsParent hstack hcell hparent => exact .readsParent hstack hcell hparent
  | callsChild hstack => exact .callsChild hstack
  | callsRaw hstack => exact .callsRaw hstack
  | dispatched hstack => exact .dispatched hstack
  | stopsParent hstack => exact .stopsParent hstack
  | stopsTimer hstack => exact .stopsTimer hstack
  | runsWork hstack => exact .runsWork hstack
  | cleanupsEnd hstack => exact .cleanupsEnd hstack
  | waveEnds hstack => exact .waveEnds hstack

/-- Every step extends the tree. -/
theorem Step.evolves (hs : Grounded s) (h : Step aborts s s') :
  Evolves s s'
  := by
  have hstack : ∀ (stack : List (Frame ε)) (ran : List Execution),
      Evolves s { s with stack := stack, ran := ran } :=
    fun _ _ => Evolves.of_cells hs rfl rfl (le_refl s.nextWave)
  cases h with
  | withCancel _ methods foreignAborted parent hparent =>
      exact evolves_newCancelContext hs hparent _ _ _
  | withDeadline _ methods foreignAborted parent hparent requestedEpoch cause start =>
      exact evolves_newTimedContext hs methods hparent _ _ _ _
  | addCleanup _ node callback => exact evolves_addCleanup hs node _
  | addListener _ node callback => exact evolves_addListener hs node _
  | cancelFunc _ node cause hnode | deadline _ node hcell htimer hrequested =>
      exact evolves_cancel hs node _ _
  | foreignAborts _ haborts node hcell hparent => exact evolves_cancelFromParent hs node
  | listenerEnds _ | cleanupEnds _ | parentThrows _ | readsParent _ hcell hparent | callsRaw _
  | dispatched _ | runsWork _ | cleanupsEnd _ | waveEnds _ => exact hstack _ _
  | parentRead _ methods hcell | takesChild _ hcell hparent methods =>
      exact (hstack _ _).trans (evolves_settle (hstack _ _).grounded _ _ _)
  | takesOwn _ => exact (hstack _ _).trans (evolves_settle (hstack _ _).grounded _ _ _)
  | callsChild _ => exact (hstack _ _).trans (evolves_cancelFromParent (hstack _ _).grounded _)
  | stopsParent _ =>
      exact (hstack _ _).trans
        (evolves_adjust (hstack _ _).grounded (fun cell _ => Cell.Grows.stopParent cell))
  | stopsTimer _ =>
      exact (hstack _ _).trans
        (evolves_adjust (hstack _ _).grounded
          (fun _ _ => ⟨rfl, rfl, rfl, fun h => ⟨h, rfl, rfl⟩⟩))

/-- Every run extends the tree. -/
theorem Run.evolves (hs : Grounded s) (h : Relation.ReflTransGen (Step aborts) s s') :
  Evolves s s'
  := by
  induction h with
  | refl => exact ⟨.refl s, hs⟩
  | tail _ hstep ih => exact ih.trans (hstep.evolves ih.grounded)

/-- The tree of a run is grounded. -/
theorem Reachable.grounded (h : Reachable aborts s) :
  Grounded s
  := (Run.evolves grounded_initial h).grounded

end

end Machine

end ContextTree
