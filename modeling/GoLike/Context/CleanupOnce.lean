import GoLike.Context.WaveSound
import Mathlib.Data.List.Nodup
import Mathlib.Algebra.BigOperators.Group.List.Basic
import Mathlib.Algebra.Ring.Nat

/-!
# Cleanups run once, and descendants first

Each cleanup that was registered before its context ended has run, or is still to be run by a
wave on the stack, and is counted once. Within a wave the cleanups of a context run before those
of the contexts above it.

Both hold in the runs in which no signal of a foreign context ends a child while a wave runs.
-/

namespace ContextTree

variable {κ ν ε : Type}

/-! ### Counting the cleanups -/

/-- How often a cleanup is on a stack of cleanups. -/
def framesCount (n : ℕ) (c : Cleanup) (cleanupFrames : List (ℕ × List Cleanup)) : ℕ :=
  (cleanupFrames.map (fun f => if f.1 = n then f.2.count c else 0)).sum

/-- How often a cleanup is still to be run by a frame. -/
def Frame.pendingCount (n : ℕ) (c : Cleanup) : Frame ε → ℕ
  | .code _ => 0
  | .dispatch node _ pending => if node = n then pending.count c else 0
  | .wave _ _ _ cleanupFrames => framesCount n c cleanupFrames

/-- How often a cleanup is still to be run. -/
def stackCount (n : ℕ) (c : Cleanup) (stack : List (Frame ε)) : ℕ :=
  (stack.map (Frame.pendingCount n c)).sum

/-- How often a cleanup was registered with a context that has ended since. -/
def Cell.released (c : Cleanup) (cell : Cell κ ν ε) : ℕ :=
  if cell.observed.isSome then cell.registered.count c else 0

@[simp] theorem framesCount_cons (n : ℕ) (c : Cleanup) (f : ℕ × List Cleanup)
    (cleanupFrames : List (ℕ × List Cleanup)) :
  framesCount n c (f :: cleanupFrames) =
    (if f.1 = n then f.2.count c else 0) + framesCount n c cleanupFrames
  := List.sum_cons

@[simp] theorem framesCount_nil (n : ℕ) (c : Cleanup) :
  framesCount n c [] = 0
  := rfl

@[simp] theorem stackCount_cons (n : ℕ) (c : Cleanup) (frame : Frame ε)
    (stack : List (Frame ε)) :
  stackCount n c (frame :: stack) = frame.pendingCount n c + stackCount n c stack
  := List.sum_cons

namespace Machine

/-- How often a cleanup of a context has been run. -/
def runCount (s : Machine κ ν ε) (n : ℕ) (c : Cleanup) : ℕ :=
  s.ran.countP (fun e => e.node = n ∧ e.cleanup = c)

/-- How often a cleanup of a context is to be run in all. -/
def released (s : Machine κ ν ε) (n : ℕ) (c : Cleanup) : ℕ :=
  ((s.cells n).map (Cell.released c)).getD 0

/-- No cleanup is lost or run twice. -/
structure Once (s : Machine κ ν ε) : Prop where
  nodup : ∀ {n : ℕ} {cell : Cell κ ν ε}, s.cells n = some cell → cell.registered.Nodup
  live : ∀ {n : ℕ} {cell : Cell κ ν ε}, s.cells n = some cell → cell.observed = none →
    cell.cleanups = cell.registered
  count : ∀ (n : ℕ) (c : Cleanup), s.runCount n c + stackCount n c s.stack = s.released n c

variable {s : Machine κ ν ε}

/-- The cells stay as they are, and the count does. -/
theorem Once.of_cells {s' : Machine κ ν ε} (h : s.Once) (hcells : s'.cells = s.cells)
    (hcount : ∀ n c, s'.runCount n c + stackCount n c s'.stack = s.runCount n c + stackCount n c s.stack) :
  s'.Once
  := by
  constructor
  case nodup =>
    intro n cell hcell
    rw [hcells] at hcell
    exact h.nodup hcell
  case live =>
    intro n cell hcell hlive
    rw [hcells] at hcell
    exact h.live hcell hlive
  case count =>
    intro n c
    rw [hcount, h.count, released, released, hcells]

variable {n : ℕ} {f : Cell κ ν ε → Cell κ ν ε}

/-- One cell changes, and what is to be run of it in all is what is counted. -/
theorem Once.of_adjust (h : s.Once)
    (hf : ∀ cell, s.cells n = some cell → (f cell).registered.Nodup ∧ ((f cell).observed = none → (f cell).cleanups = (f cell).registered) ∧ ∀ c, (f cell).released c = cell.released c) :
  (s.adjust n f).Once
  := by
  constructor
  case nodup =>
    intro m cell hcell
    by_cases hm : m = n
    · subst hm
      rw [adjust_cells_same, Option.map_eq_some_iff] at hcell
      obtain ⟨cell, hcell, rfl⟩ := hcell
      exact (hf cell hcell).1
    · rw [adjust_cells_of_ne s hm] at hcell
      exact h.nodup hcell
  case live =>
    intro m cell hcell
    by_cases hm : m = n
    · subst hm
      rw [adjust_cells_same, Option.map_eq_some_iff] at hcell
      obtain ⟨cell, hcell, rfl⟩ := hcell
      exact (hf cell hcell).2.1
    · rw [adjust_cells_of_ne s hm] at hcell
      exact h.live hcell
  case count =>
    intro m c
    have hcount : (s.adjust n f).released m c = s.released m c := by
      by_cases hm : m = n
      · subst hm
        rw [released, released, adjust_cells_same]
        cases hcell : s.cells m with
        | none => rfl
        | some cell => exact (hf cell hcell).2.2 c
      · rw [released, released, adjust_cells_of_ne s hm]
    rw [hcount, ← h.count m c]
    rfl

/-- A change of a cell that keeps its record and its cleanups. -/
theorem Once.adjust_keep (h : s.Once)
    (hf : ∀ cell, (f cell).observed = cell.observed ∧ (f cell).cleanups = cell.cleanups ∧ (f cell).registered = cell.registered) :
  (s.adjust n f).Once
  := by
  apply h.of_adjust
  intro cell hcell
  obtain ⟨hobserved, hcleanups, hregistered⟩ := hf cell
  refine ⟨?_, ?_, ?_⟩
  · rw [hregistered]
    exact h.nodup hcell
  · intro hlive
    rw [hobserved] at hlive
    rw [hcleanups, hregistered, h.live hcell hlive]
  · intro c
    rw [Cell.released, Cell.released, hobserved, hregistered]

/-- A cleanup is registered, once, and only counts while the context has not ended. -/
theorem Once.addCleanup (h : s.Once) (n : ℕ) (cleanup : Cleanup) :
  (s.addCleanup n cleanup).Once
  := by
  apply h.of_adjust
  intro cell hcell
  by_cases hmem : cleanup ∈ cell.cleanups
  · rw [Cell.addCleanup, if_pos hmem]
    exact ⟨h.nodup hcell, h.live hcell, fun _ => rfl⟩
  · rw [Cell.addCleanup, if_neg hmem]
    cases hobserved : cell.observed with
    | none =>
        have hlive := h.live hcell hobserved
        simp only [Option.isNone_none, if_true]
        refine ⟨?_, ?_, ?_⟩
        · apply List.Nodup.append (h.nodup hcell) (List.nodup_singleton cleanup)
          rw [List.disjoint_singleton, ← hlive]
          exact hmem
        · intro _
          rw [hlive]
        · intro c
          simp only [Cell.released, hobserved, Option.isSome_none, Bool.false_eq_true, if_false]
    | some failure =>
        simp only [Option.isNone_some, Bool.false_eq_true, if_false]
        refine ⟨h.nodup hcell, ?_, ?_⟩
        · intro hlive
          cases hlive
        · intro c
          rw [Cell.released, Cell.released, hobserved]

/-- A context is created with at most one cleanup, and none when it has ended already. -/
theorem Once.registerCancelNode (h : s.Once) (hs : Grounded s) (parent : Context κ ν)
    (deadlineEpoch : Option ℤ) (requested : Option (ℤ × ErrorValue ε))
    (failure : Option (Failure ε)) :
  (s.registerCancelNode parent deadlineEpoch requested failure).Once
  := by
  have hnone : s.cells s.next = none := by
    cases hcell : s.cells s.next with
    | none => rfl
    | some cell => exact (Nat.lt_irrefl _ (hs.fresh hcell)).elim
  constructor
  case nodup =>
    intro n cell hcell
    by_cases hn : n = s.next
    · subst hn
      rw [registerCancelNode_cells_same] at hcell
      obtain rfl := Option.some.inj hcell
      rw [newCell]
      split
      · exact List.nodup_singleton _
      · exact List.nodup_nil
    · rw [registerCancelNode_cells_of_ne s hn] at hcell
      exact h.nodup hcell
  case live =>
    intro n cell hcell hlive
    by_cases hn : n = s.next
    · subst hn
      rw [registerCancelNode_cells_same] at hcell
      obtain rfl := Option.some.inj hcell
      rfl
    · rw [registerCancelNode_cells_of_ne s hn] at hcell
      exact h.live hcell hlive
  case count =>
    intro n c
    have hcount : (s.registerCancelNode parent deadlineEpoch requested failure).released n c =
        s.released n c := by
      by_cases hn : n = s.next
      · subst hn
        rw [released, released, registerCancelNode_cells_same, hnone]
        cases failure with
        | none => rfl
        | some failure =>
            cases hdone : parent.resolveDone with
            | none | some => simp [newCell, newRegistration, hdone, Cell.released]
      · rw [released, released, registerCancelNode_cells_of_ne s hn]
    rw [hcount, ← h.count n c]
    rfl

/-- A context ends, and the cleanups that were registered are those that the dispatch of its
signal holds. -/
theorem Once.settle (h : s.Once) (n : ℕ) (failure : Failure ε) (ending : Ending) :
  (s.settle n failure ending).Once
  := by
  obtain ⟨cell, hcell, hobserved⟩ | hended := s.settles_or n
  · rw [settle_of_live hcell hobserved]
    have hlive := h.live hcell hobserved
    have hnodup := h.nodup hcell
    constructor
    case nodup =>
      intro m cell' hcell'
      by_cases hm : m = n
      · subst hm
        rw [adjust_cells_same, hcell] at hcell'
        obtain rfl := Option.some.inj hcell'
        exact hnodup
      · rw [adjust_cells_of_ne _ hm] at hcell'
        exact h.nodup hcell'
    case live =>
      intro m cell' hcell' hlive'
      by_cases hm : m = n
      · subst hm
        rw [adjust_cells_same, hcell] at hcell'
        obtain rfl := Option.some.inj hcell'
        cases hlive'
      · rw [adjust_cells_of_ne _ hm] at hcell'
        exact h.live hcell' hlive'
    case count =>
      intro m c
      have hcount := h.count m c
      by_cases hm : m = n
      · subst hm
        have hbefore : s.released m c = 0 := by
          rw [released, hcell, Option.map_some, Option.getD_some, Cell.released, hobserved]
          rfl
        rw [hbefore] at hcount
        rw [released, adjust_cells_same, hcell, adjust_stack, stackCount_cons, Frame.pendingCount,
          if_pos rfl, hlive]
        simp only [Option.map_some, Option.getD_some, Cell.released, Cell.finish,
          Option.isSome_some, if_true]
        change s.runCount m c + (cell.registered.count c + stackCount m c s.stack) = _
        omega
      · rw [released, adjust_cells_of_ne _ hm, adjust_stack, stackCount_cons, Frame.pendingCount,
          if_neg (Ne.symm hm), Nat.zero_add]
        exact hcount
  · rw [settle_of_ended hended]
    exact h

/-! ### Sound states -/

/-- What holds of the states of a run. -/
structure Sound (s : Machine κ ν ε) : Prop where
  grounded : Grounded s
  stack : s.StackSound s.stack
  listening : ∀ {n child : ℕ} {cell : Cell κ ν ε}, s.cells n = some cell →
    .child child ∈ cell.listeners → s.link child = some (.node n)
  recent : ∀ e ∈ s.ran, e.wave < s.nextWave
  ended : ∀ e ∈ s.ran, s.Ended e.node
  /-- A cleanup of a context does not run before one of a context below it. -/
  ordered : s.ran.Pairwise (fun e e' => e.wave = e'.wave → e.node ∉ s.ancestors e'.node)
  once : s.Once

/-- The tree grows, and nothing else changes. -/
theorem Sound.evolve {s' : Machine κ ν ε} (h : s.Sound) (he : Evolves s s')
    (hstack : s'.stack = s.stack) (hran : s'.ran = s.ran)
    (hlistening : ∀ {n child : ℕ} {cell : Cell κ ν ε}, s'.cells n = some cell → .child child ∈ cell.listeners → s'.link child = some (.node n))
    (honce : s'.Once) :
  s'.Sound
  := by
  constructor
  case grounded => exact he.grounded
  case stack =>
    rw [hstack]
    apply h.stack.later h.grounded
    constructor
    case extends_ => exact he.extends_
    case ran =>
      intro e he
      rw [hran] at he
      exact .inl he
  case listening => exact hlistening
  case recent =>
    intro e hmem
    rw [hran] at hmem
    exact Nat.lt_of_lt_of_le (h.recent e hmem) he.extends_.nextWave
  case ended =>
    intro e hmem
    rw [hran] at hmem
    exact he.extends_.ended (h.ended e hmem)
  case ordered =>
    rw [hran]
    apply h.ordered.imp_of_mem
    intro e e' _ hmem hpair hwave
    exact he.extends_.not_above (h.ended e' hmem) (hpair hwave)
  case once => exact honce

/-- A cell changes, and neither its record nor what it has registered does. -/
theorem Sound.adjust (h : s.Sound) (hgrows : ∀ cell, Cell.Grows cell (f cell))
    (hlisteners : ∀ {cell child}, s.cells n = some cell → .child child ∈ (f cell).listeners → .child child ∈ cell.listeners ∨ s.link child = some (.node n))
    (honce : (s.adjust n f).Once) :
  (s.adjust n f).Sound
  := by
  have hevolves := evolves_adjust h.grounded (n := n) (fun cell _ => hgrows cell)
  apply h.evolve hevolves rfl rfl _ honce
  intro m child cell hcell hchild
  apply hevolves.extends_.link
  by_cases hm : m = n
  · subst hm
    rw [adjust_cells_same, Option.map_eq_some_iff] at hcell
    obtain ⟨cell, hcell, rfl⟩ := hcell
    obtain hchild | hlink := hlisteners hcell hchild
    · exact h.listening hcell hchild
    · exact hlink
  · rw [adjust_cells_of_ne s hm] at hcell
    exact h.listening hcell hchild

/-- A change of a cell that keeps its record, its cleanups and its listeners. -/
theorem Sound.adjust_keep (h : s.Sound) (hgrows : ∀ cell, Cell.Grows cell (f cell))
    (hf : ∀ cell, (f cell).observed = cell.observed ∧ (f cell).cleanups = cell.cleanups ∧ (f cell).registered = cell.registered ∧ (f cell).listeners = cell.listeners) :
  (s.adjust n f).Sound
  := by
  apply h.adjust hgrows
  · intro cell child _ hchild
    rw [(hf cell).2.2.2] at hchild
    exact .inl hchild
  · exact h.once.adjust_keep (fun cell => ⟨(hf cell).1, (hf cell).2.1, (hf cell).2.2.1⟩)

/-- A cleanup is registered. -/
theorem Sound.addCleanup (h : s.Sound) (n : ℕ) (cleanup : Cleanup) :
  (s.addCleanup n cleanup).Sound
  := by
  apply h.adjust (fun cell => Cell.Grows.addCleanup cell cleanup) _ (h.once.addCleanup n cleanup)
  intro cell child _ hchild
  left
  rw [Cell.addCleanup] at hchild
  split at hchild
  · exact hchild
  · exact hchild

/-- A listener is added: one of a caller, or one of a child. -/
theorem Sound.addListener (h : s.Sound) (n : ℕ) {listener : Listener}
    (hlistener : ∀ child, listener = .child child → s.link child = some (.node n)) :
  (s.addListener n listener).Sound
  := by
  apply h.adjust (f := fun cell => { cell with listeners := cell.listeners ++ [listener] })
    (fun _ => ⟨rfl, rfl, rfl, fun h => ⟨h, rfl, rfl⟩⟩)
  · intro cell child _ hchild
    obtain hchild | hchild := List.mem_append.1 hchild
    · exact .inl hchild
    · exact .inr (hlistener child (List.mem_singleton.1 hchild).symm)
  · exact h.once.adjust_keep (fun _ => ⟨rfl, rfl, rfl⟩)

/-- The stack changes, and is still sound. -/
theorem Sound.restack (h : s.Sound) {stack : List (Frame ε)} (hstack : s.StackSound stack)
    (hcount : ∀ n c, stackCount n c stack = stackCount n c s.stack) :
  ({ s with stack := stack } : Machine κ ν ε).Sound
  := by
  have hevolves : Evolves s { s with stack := stack } :=
    Evolves.of_cells h.grounded rfl rfl (le_refl s.nextWave)
  constructor
  case grounded => exact hevolves.grounded
  case stack =>
    exact hstack.later h.grounded ⟨hevolves.extends_, fun _ he => .inl he⟩
  case listening => exact h.listening
  case recent => exact h.recent
  case ended => exact h.ended
  case ordered => exact h.ordered
  case once =>
    have hcells : ({ s with stack := stack } : Machine κ ν ε).cells = s.cells := rfl
    apply h.once.of_cells hcells
    intro n c
    rw [hcount]
    rfl

/-- The waves on the stack have been numbered. -/
theorem StackSound.waves_lt {stack : List (Frame ε)} (h : s.StackSound stack) :
  ∀ w ∈ waves stack, w < s.nextWave
  := by
  induction stack with
  | nil =>
      intro w hw
      cases hw
  | cons frame rest ih =>
      intro w hw
      cases frame with
      | code | dispatch => exact ih h.2 w hw
      | wave id root tasks cleanupFrames =>
          obtain rfl | hw := List.mem_cons.1 hw
          · exact WaveSound.recent h.1
          · exact ih h.2 w hw

variable {root : ℕ}

/-- A wave is run. -/
theorem Sound.runCancellationWave (h : s.Sound) {task : Task ε} (htask : s.TaskSound root task) :
  (s.runCancellationWave root task).Sound
  := by
  have hevolves := evolves_runCancellationWave h.grounded root task
  have hnone : (s.runCancellationWave root task).NoRuns s.nextWave := by
    intro e he hwave
    have hlt := h.recent e he
    rw [hwave] at hlt
    exact Nat.lt_irrefl _ hlt
  constructor
  case grounded => exact hevolves.grounded
  case stack =>
    refine ⟨?_, h.stack.later h.grounded ⟨hevolves.extends_, fun _ he => .inl he⟩⟩
    constructor
    case recent => exact Nat.lt_succ_self _
    case last => exact h.stack.waves_lt
    case idle => exact fun _ => hnone
    case sound =>
      intro task' htask'
      rw [List.mem_singleton.1 htask']
      exact hevolves.extends_.taskSound h.grounded htask
    case alone =>
      intro n foreign hn _
      rw [List.mem_singleton.1 hn]
      exact ⟨rfl, rfl⟩
    case under =>
      intro f hf
      cases hf
    case above => exact List.Pairwise.nil
    case ran =>
      intro e _ _ f hf
      cases hf
  case listening => exact h.listening
  case recent => exact fun e he => Nat.lt_succ_of_lt (h.recent e he)
  case ended => exact h.ended
  case ordered => exact h.ordered
  case once =>
    have hcells : (s.runCancellationWave root task).cells = s.cells := rfl
    apply h.once.of_cells hcells
    intro n c
    change _ + stackCount n c (.wave _ _ _ [] :: s.stack) = _
    rw [stackCount_cons, Frame.pendingCount, framesCount_nil, Nat.zero_add]
    rfl

/-- A context is cancelled. -/
theorem Sound.cancel (h : s.Sound) (n : ℕ) (failure : Failure ε) (ending : Ending) :
  (s.cancel n failure ending).Sound
  := by
  rw [Machine.cancel]
  cases s.observed n with
  | some _ => exact h
  | none => exact h.runCancellationWave rfl

/-- A context is ended by the wave on top of the stack. -/
theorem Sound.settle (h : s.Sound) {id : ℕ} {tasks : List (Task ε)}
    {cleanupFrames : List (ℕ × List Cleanup)} {rest : List (Frame ε)}
    (hstack : s.stack = .wave id root tasks cleanupFrames :: rest) (hnone : s.NoRuns id)
    (hlinked : ∀ n, .fromParent n ∈ tasks → ∃ p, s.link n = some (.node p))
    (hjoined : s.Joined root n)
    (hunder : ∀ {s' : Machine κ ν ε}, Evolves s s' → s'.Ended n → s'.Under root n)
    (failure : Failure ε) (ending : Ending) :
  (s.settle n failure ending).Sound
  := by
  have hevolves := evolves_settle h.grounded n failure ending
  have honce := h.once.settle n failure ending
  obtain ⟨cell, hcell, hobserved⟩ | hended := s.settles_or n
  · rw [settle_of_live hcell hobserved] at hevolves honce ⊢
    have hstack' := adjust_stack
      { s with stack := .dispatch n cell.listeners cell.cleanups :: s.stack } n
      (Cell.finish failure ending)
    have hran' := adjust_ran
      { s with stack := .dispatch n cell.listeners cell.cleanups :: s.stack } n
      (Cell.finish failure ending)
    have hcell' := adjust_cells_same
      { s with stack := .dispatch n cell.listeners cell.cleanups :: s.stack } n
      (Cell.finish failure ending)
    have hcells' : ∀ m, m ≠ n → _ := fun m hm => adjust_cells_of_ne
      { s with stack := .dispatch n cell.listeners cell.cleanups :: s.stack } hm
      (Cell.finish failure ending)
    generalize ({ s with stack := .dispatch n cell.listeners cell.cleanups :: s.stack } :
      Machine κ ν ε).adjust n (Cell.finish failure ending) = s' at *
    simp only [hstack, hcell, Option.map_some] at hstack' hran' hcell' hcells'
    have hlive : ¬ s.Ended n := by
      rintro ⟨failure', hended⟩
      rw [observed, hcell, Option.bind_some, hobserved] at hended
      cases hended
    have hwave := h.stack
    rw [hstack] at hwave
    constructor
    case grounded => exact hevolves.grounded
    case stack =>
      rw [hstack']
      refine ⟨?_, hwave.later h.grounded ⟨hevolves.extends_, fun _ he => .inl (hran' ▸ he)⟩⟩
      refine ⟨?_, ?_, ?_, ?_, ?_⟩
      · intro e he
        rw [hran'] at he
        exact hnone e he
      · apply hunder hevolves
        exact ⟨failure, by rw [observed, hcell']; rfl⟩
      · intro f hf
        have hf' := WaveSound.under hwave.1 f hf
        exact hevolves.extends_.not_above hf'.self (hf'.not_mem hjoined hlive)
      · intro m hm
        obtain ⟨p, hlink⟩ := hlinked m hm
        exact ⟨p, hevolves.extends_.link hlink⟩
      · exact fun child hchild => hevolves.extends_.link (h.listening hcell hchild)
    case listening =>
      intro m child cell'' hcell'' hchild
      apply hevolves.extends_.link
      by_cases hm : m = n
      · subst hm
        rw [hcell'] at hcell''
        obtain rfl := Option.some.inj hcell''
        exact h.listening hcell hchild
      · rw [hcells' m hm] at hcell''
        exact h.listening hcell'' hchild
    case recent =>
      intro e he
      rw [hran'] at he
      exact Nat.lt_of_lt_of_le (h.recent e he) hevolves.extends_.nextWave
    case ended =>
      intro e he
      rw [hran'] at he
      exact hevolves.extends_.ended (h.ended e he)
    case ordered =>
      rw [hran']
      apply h.ordered.imp_of_mem
      intro e e' _ hmem hpair hwave
      exact hevolves.extends_.not_above (h.ended e' hmem) (hpair hwave)
    case once => exact honce
  · rw [settle_of_ended hended]
    exact h

/-- A cleanup is taken from the stack of the wave on top, and run. -/
theorem Sound.runsCleanup (h : s.Sound) {id : ℕ} {cleanup : Cleanup} {cleanups : List Cleanup}
    {cleanupFrames : List (ℕ × List Cleanup)} {rest : List (Frame ε)}
    (hstack : s.stack = .wave id root [] ((n, cleanup :: cleanups) :: cleanupFrames) :: rest) :
  ({ s with
      stack := .wave id root [] ((n, cleanups) :: cleanupFrames) :: rest
      ran := s.ran ++ [⟨id, n, cleanup⟩] } : Machine κ ν ε).Sound
  := by
  have hsound := h.stack
  rw [hstack] at hsound
  have hwave : s.WaveSound id root [] ((n, cleanup :: cleanups) :: cleanupFrames) rest := hsound.1
  have hunder := hwave.under _ List.mem_cons_self
  have habove := hwave.above
  have hnot : ∀ f ∈ (n, cleanups) :: cleanupFrames, n ∉ s.ancestors f.1 := by
    intro f hf
    obtain rfl | hf := List.mem_cons.1 hf
    · exact fun hn => Nat.lt_irrefl _ (h.grounded.below hn)
    · exact (List.pairwise_cons.1 habove).1 f hf
  have hevolves : Evolves s { s with
      stack := .wave id root [] ((n, cleanups) :: cleanupFrames) :: rest
      ran := s.ran ++ [⟨id, n, cleanup⟩] } :=
    Evolves.of_cells h.grounded rfl rfl (le_refl s.nextWave)
  have hframes : ∀ {P : ℕ → Prop}, (∀ f ∈ (n, cleanup :: cleanups) :: cleanupFrames, P f.1) →
      ∀ f ∈ (n, cleanups) :: cleanupFrames, P f.1 := by
    intro P hall f hf
    obtain rfl | hf := List.mem_cons.1 hf
    · exact hall (n, cleanup :: cleanups) List.mem_cons_self
    · exact hall f (List.mem_cons_of_mem _ hf)
  constructor
  case grounded => exact hevolves.grounded
  case stack =>
    constructor
    · constructor
      case recent => exact hwave.recent
      case last => exact hwave.last
      case idle => exact fun hne => (hne rfl).elim
      case sound =>
        intro task htask
        cases htask
      case alone =>
        intro m foreign hm
        cases hm
      case under =>
        apply hframes (P := Under _ root)
        exact fun f hf => hevolves.extends_.under h.grounded (hwave.under f hf)
      case above =>
        apply List.pairwise_cons.2
        exact List.pairwise_cons.1 habove
      case ran =>
        intro e he hid
        obtain he | he := List.mem_append.1 he
        · apply hframes (P := fun m => e.node ∉ s.ancestors m)
          exact hwave.ran e he hid
        · rw [List.mem_singleton.1 he]
          exact hnot
    · apply hsound.2.later h.grounded
      refine ⟨hevolves.extends_, ?_⟩
      intro e he
      apply (List.mem_append.1 he).imp_right
      intro he hmem
      rw [List.mem_singleton.1 he] at hmem
      exact Nat.lt_irrefl _ (hwave.last _ hmem)
  case listening => exact h.listening
  case recent =>
    intro e he
    obtain he | he := List.mem_append.1 he
    · exact h.recent e he
    · rw [List.mem_singleton.1 he]
      exact hwave.recent
  case ended =>
    intro e he
    obtain he | he := List.mem_append.1 he
    · exact h.ended e he
    · rw [List.mem_singleton.1 he]
      exact hunder.self
  case ordered =>
    apply List.pairwise_append.2
    refine ⟨h.ordered, List.pairwise_singleton .., ?_⟩
    intro e he e' he' hid
    rw [List.mem_singleton.1 he'] at hid ⊢
    exact hwave.ran e he hid _ List.mem_cons_self
  case once =>
    refine h.once.of_cells rfl ?_
    intro m c
    rw [hstack, runCount, runCount, List.countP_append, stackCount_cons, stackCount_cons,
      Frame.pendingCount, Frame.pendingCount, framesCount_cons, framesCount_cons]
    by_cases hm : n = m
    · subst hm
      by_cases hc : cleanup = c
      · subst hc
        simp
        omega
      · simp [hc]
    · simp [hm]

end Machine

end ContextTree
