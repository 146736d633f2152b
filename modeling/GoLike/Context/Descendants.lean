import GoLike.Context.Cleanups
import GoLike.Context.Records

/-!
# Descendants

A context that has not ended is listed at its parent, or waits on the stack for its end: the
parent has ended, and the context is among the listeners that are still to be called, or it is
in the queue of a wave. So when no wave runs, a context whose parent has ended has ended.

What waits is kept by the part of the stack on which a step works, whatever lies below it.
-/

namespace ContextTree

namespace Machine

variable {κ ν ε : Type}

/-! ### Waiting for the end -/

/-- The listener of a child is still to be called on a part of the stack. -/
def Listed (seg : List (Frame ε)) (p child : ℕ) : Prop :=
  ∃ listeners pending, .dispatch p listeners pending ∈ seg ∧ .child child ∈ listeners

/-- The end of a context is queued on a part of the stack. -/
def Queued (seg : List (Frame ε)) (n : ℕ) : Prop :=
  ∃ id root tasks cleanupFrames,
    .wave id root tasks cleanupFrames ∈ seg ∧ .fromParent n ∈ tasks

/-- A context waits for its end after that of its parent. -/
def Waiting (seg : List (Frame ε)) (n : ℕ) (cell : Cell κ ν ε) (p : ℕ) : Prop :=
  (cell.registration = .pending ∧ Listed seg p n) ∨ Queued seg n

/-- Those contexts of a set that have not ended, but whose parents have, wait on a part of the
stack. -/
def Covers (s : Machine κ ν ε) (seg : List (Frame ε)) (P : ℕ → Prop) : Prop :=
  ∀ ⦃n : ℕ⦄ ⦃cell : Cell κ ν ε⦄ ⦃p : ℕ⦄, P n → s.cells n = some cell → cell.observed = none →
    cell.parent.resolveDone = some (.node p) → s.Ended p → Waiting seg n cell p

/-- A context is listed at its parent as long as neither has ended. -/
def AttachedAt (s : Machine κ ν ε) (n : ℕ) : Prop :=
  ∀ ⦃cell : Cell κ ν ε⦄ ⦃p : ℕ⦄, s.cells n = some cell → cell.observed = none →
    cell.parent.resolveDone = some (.node p) → ¬ s.Ended p →
      cell.registration = .pending ∧
        ∃ cell', s.cells p = some cell' ∧ .child n ∈ cell'.listeners

/-- Every context is listed at its parent as long as neither has ended. -/
def Attached (s : Machine κ ν ε) : Prop :=
  ∀ n, s.AttachedAt n

/-- A part of the stack that holds more. -/
structure Holds (seg seg' : List (Frame ε)) (P : ℕ → Prop) : Prop where
  listed : ∀ {p n : ℕ}, P n → Listed seg p n → Listed seg' p n
  queued : ∀ {n : ℕ}, P n → Queued seg n → Queued seg' n

variable {seg : List (Frame ε)} {P : ℕ → Prop} {n : ℕ}

/-- What waits on a part of the stack waits on one that holds more. -/
theorem Waiting.mono {seg' : List (Frame ε)} (h : Holds seg seg' P) (hn : P n) {cell : Cell κ ν ε}
    {p : ℕ} (hwaiting : Waiting seg n cell p) :
  Waiting seg' n cell p
  := by
  obtain ⟨hpending, hlisted⟩ | hqueued := hwaiting
  · exact .inl ⟨hpending, h.listed hn hlisted⟩
  · exact .inr (h.queued hn hqueued)

/-- Frames that are pushed take nothing away. -/
theorem Holds.push (new seg : List (Frame ε)) (P : ℕ → Prop) :
  Holds seg (new ++ seg) P
  := by
  constructor
  case listed =>
    rintro p n - ⟨listeners, pending, hmem, hchild⟩
    exact ⟨listeners, pending, List.mem_append_right new hmem, hchild⟩
  case queued =>
    rintro n - ⟨id, root, tasks, cleanupFrames, hmem, htask⟩
    exact ⟨id, root, tasks, cleanupFrames, List.mem_append_right new hmem, htask⟩

/-- What holds more on top holds more with the same frames below. -/
theorem Holds.append {t t' : List (Frame ε)} (h : Holds t t' P) (u : List (Frame ε)) :
  Holds (t ++ u) (t' ++ u) P
  := by
  constructor
  case listed =>
    rintro p n hn ⟨listeners, pending, hmem, hchild⟩
    obtain hmem | hmem := List.mem_append.1 hmem
    · obtain ⟨listeners', pending', hmem', hchild'⟩ :=
        h.listed hn ⟨listeners, pending, hmem, hchild⟩
      exact ⟨listeners', pending', List.mem_append_left u hmem', hchild'⟩
    · exact ⟨listeners, pending, List.mem_append_right t' hmem, hchild⟩
  case queued =>
    rintro n hn ⟨id, root, tasks, cleanupFrames, hmem, htask⟩
    obtain hmem | hmem := List.mem_append.1 hmem
    · obtain ⟨id', root', tasks', cleanupFrames', hmem', htask'⟩ :=
        h.queued hn ⟨id, root, tasks, cleanupFrames, hmem, htask⟩
      exact ⟨id', root', tasks', cleanupFrames', List.mem_append_left u hmem', htask'⟩
    · exact ⟨id, root, tasks, cleanupFrames, List.mem_append_right t' hmem, htask⟩

/-- A frame that lists no child and queues none may go. -/
theorem Holds.pop {frame : Frame ε} (hdispatch : ∀ p listeners pending,
      frame = .dispatch p listeners pending → listeners = [])
    (hwave : ∀ id root tasks cleanupFrames, frame = .wave id root tasks cleanupFrames → tasks = [])
    (seg : List (Frame ε)) (P : ℕ → Prop) :
  Holds (frame :: seg) seg P
  := by
  constructor
  case listed =>
    rintro p n - ⟨listeners, pending, hmem, hchild⟩
    obtain heq | hmem := List.mem_cons.1 hmem
    · rw [hdispatch _ _ _ heq.symm] at hchild
      cases hchild
    · exact ⟨listeners, pending, hmem, hchild⟩
  case queued =>
    rintro n - ⟨id, root, tasks, cleanupFrames, hmem, htask⟩
    obtain heq | hmem := List.mem_cons.1 hmem
    · rw [hwave _ _ _ _ heq.symm] at htask
      cases htask
    · exact ⟨id, root, tasks, cleanupFrames, hmem, htask⟩

variable {id root : ℕ} {task : Task ε} {tasks : List (Task ε)}
  {cleanupFrames : List (ℕ × List Cleanup)}

/-- A wave that takes a task holds the others. -/
theorem Holds.takes {cleanupFrames' : List (ℕ × List Cleanup)}
    (htask : ∀ n, P n → task ≠ .fromParent n) :
  Holds [.wave id root (task :: tasks) cleanupFrames] [.wave id root tasks cleanupFrames'] P
  := by
  constructor
  case listed =>
    rintro p n - ⟨listeners, pending, hmem, hchild⟩
    cases List.mem_singleton.1 hmem
  case queued =>
    rintro n hn ⟨id', root', tasks', cleanupFrames'', hmem, hqueued⟩
    cases List.mem_singleton.1 hmem
    obtain heq | hqueued := List.mem_cons.1 hqueued
    · exact (htask n hn heq.symm).elim
    · exact ⟨id, root, tasks, cleanupFrames', List.mem_singleton_self _, hqueued⟩

/-- A wave whose stack of cleanups changes holds what it held. -/
theorem Holds.cleanups {cleanupFrames' : List (ℕ × List Cleanup)} :
  Holds [.wave id root tasks cleanupFrames] [.wave id root tasks cleanupFrames'] P
  := by
  constructor
  case listed =>
    rintro p n - ⟨listeners, pending, hmem, hchild⟩
    cases List.mem_singleton.1 hmem
  case queued =>
    rintro n - ⟨id', root', tasks', cleanupFrames'', hmem, hqueued⟩
    cases List.mem_singleton.1 hmem
    exact ⟨id, root, tasks, cleanupFrames', List.mem_singleton_self _, hqueued⟩

/-- One holds more than another that holds more than a third. -/
theorem Holds.trans {seg' seg'' : List (Frame ε)} (h : Holds seg seg' P) (h' : Holds seg' seg'' P) :
  Holds seg seg'' P
  := ⟨fun hn hlisted => h'.listed hn (h.listed hn hlisted),
    fun hn hqueued => h'.queued hn (h.queued hn hqueued)⟩

/-! ### What a step carries on -/

/-- Cells in which only listeners are added, and nothing of the registrations changes. -/
structure Mild (s s' : Machine κ ν ε) : Prop where
  back : ∀ {n : ℕ} {cell' : Cell κ ν ε}, s'.cells n = some cell' →
    ∃ cell, s.cells n = some cell ∧ cell'.observed = cell.observed ∧
      cell'.parent = cell.parent ∧
        (cell.observed = none → cell'.registration = cell.registration ∧
          ∀ child, .child child ∈ cell.listeners → .child child ∈ cell'.listeners)
  forth : ∀ {n : ℕ} {cell : Cell κ ν ε}, s.cells n = some cell → ∃ cell', s'.cells n = some cell'

variable {s s' : Machine κ ν ε}

/-- What has ended after a mild change had ended before. -/
theorem Mild.ended (h : Mild s s') :
  s'.Ended n ↔ s.Ended n
  := by
  constructor
  · rintro ⟨failure, hended⟩
    obtain ⟨cell', hcell', hobserved'⟩ := Option.bind_eq_some_iff.1 hended
    obtain ⟨cell, hcell, hobserved, -⟩ := h.back hcell'
    exact ⟨failure, by rw [observed, hcell, Option.bind_some, ← hobserved, hobserved']⟩
  · rintro ⟨failure, hended⟩
    obtain ⟨cell, hcell, hobserved⟩ := Option.bind_eq_some_iff.1 hended
    obtain ⟨cell', hcell'⟩ := h.forth hcell
    obtain ⟨cell'', hcell'', hobserved', -⟩ := h.back hcell'
    obtain rfl := Option.some.inj (hcell.symm.trans hcell'')
    exact ⟨failure, by rw [observed, hcell', Option.bind_some, hobserved', hobserved]⟩

/-- After a mild change the same contexts wait. -/
theorem Mild.covers (h : Mild s s') (hcovers : s.Covers seg P) :
  s'.Covers seg P
  := by
  intro n cell' p hn hcell' hlive hdone hended
  obtain ⟨cell, hcell, hobserved, hparent, hkeeps⟩ := h.back hcell'
  rw [hobserved] at hlive
  rw [hparent] at hdone
  rw [Waiting, (hkeeps hlive).1]
  exact hcovers hn hcell hlive hdone (h.ended.1 hended)

/-- After a mild change a context is listed where it was. -/
theorem Mild.attachedAt (h : Mild s s') (hattached : s.AttachedAt n) :
  s'.AttachedAt n
  := by
  intro cell' p hcell' hlive hdone hended
  obtain ⟨cell, hcell, hobserved, hparent, hkeeps⟩ := h.back hcell'
  rw [hobserved] at hlive
  rw [hparent] at hdone
  rw [h.ended] at hended
  obtain ⟨hpending, pcell, hpcell, hchild⟩ := hattached hcell hlive hdone hended
  obtain ⟨pcell', hpcell'⟩ := h.forth hpcell
  obtain ⟨pcell'', hpcell'', hpobserved, -, hpkeeps⟩ := h.back hpcell'
  obtain rfl := Option.some.inj (hpcell.symm.trans hpcell'')
  have hplive : pcell.observed = none := by
    cases hobserved : pcell.observed with
    | none => rfl
    | some failure =>
        exact (hended ⟨failure, by rw [observed, hpcell, Option.bind_some, hobserved]⟩).elim
  refine ⟨(hkeeps hlive).1.trans hpending, pcell', hpcell', (hpkeeps hplive).2 n hchild⟩

/-- A change of one cell that keeps its record, its parent, its registration and its listeners,
or of one that has ended. -/
theorem Mild.adjust {t : Machine κ ν ε} (ht : t.cells = s.cells) (n : ℕ)
    {f : Cell κ ν ε → Cell κ ν ε}
    (hf : ∀ cell, s.cells n = some cell → (f cell).observed = cell.observed ∧ (f cell).parent = cell.parent ∧ (cell.observed = none → (f cell).registration = cell.registration ∧ ∀ child, .child child ∈ cell.listeners → .child child ∈ (f cell).listeners)) :
  Mild s (t.adjust n f)
  := by
  constructor
  case back =>
    intro m cell' hcell'
    by_cases hm : m = n
    · subst hm
      rw [adjust_cells_same, ht, Option.map_eq_some_iff] at hcell'
      obtain ⟨cell, hcell, rfl⟩ := hcell'
      exact ⟨cell, hcell, hf cell hcell⟩
    · rw [adjust_cells_of_ne t hm, ht] at hcell'
      exact ⟨cell', hcell', rfl, rfl, fun _ => ⟨rfl, fun _ h => h⟩⟩
  case forth =>
    intro m cell hcell
    by_cases hm : m = n
    · subst hm
      exact ⟨f cell, by rw [adjust_cells_same, ht, hcell, Option.map_some]⟩
    · exact ⟨cell, by rw [adjust_cells_of_ne t hm, ht, hcell]⟩

/-- The cells stay as they are. -/
theorem Mild.of_cells (h : s'.cells = s.cells) :
  Mild s s'
  := by
  constructor
  case back =>
    intro n cell' hcell'
    rw [h] at hcell'
    exact ⟨cell', hcell', rfl, rfl, fun _ => ⟨rfl, fun _ h => h⟩⟩
  case forth =>
    intro n cell hcell
    exact ⟨cell, by rw [h, hcell]⟩

/-! ### What steps carry on -/

/-- How the top of a stack changes: no wave is on the new top, a wave works that was at the bottom
of the old one, or a wave starts. A wave does what it was started for, and it is started for a
child only when the signal of a foreign context is aborted. -/
inductive TopChange (aborted : Prop) (Done : ℕ → Prop) (nextWave : ℕ) :
    List (Frame ε) → List (Frame ε) → Prop
  | none {t t' : List (Frame ε)} (h : waves t' = []) : TopChange aborted Done nextWave t t'
  | works (id root : ℕ) {y z : List (Frame ε)} (h : waves z = [])
      {tasks tasks' : List (Task ε)} {cleanupFrames cleanupFrames' : List (ℕ × List Cleanup)}
      (hdone : ∀ n failure ending, .own n failure ending ∈ tasks →
        .own n failure ending ∈ tasks' ∨ Done n) :
      TopChange aborted Done nextWave (y ++ [.wave id root tasks cleanupFrames])
        (z ++ [.wave id root tasks' cleanupFrames'])
  | starts (root : ℕ) {task : Task ε}
      (htask : (∃ failure ending, task = .own root failure ending) ∨ aborted) :
      TopChange aborted Done nextWave [] [.wave nextWave root [task] []]

/-- A step works on the top of the stack, and what has waited there still does. -/
def Works (aborted : Prop) (s s' : Machine κ ν ε) : Prop :=
  s'.Attached ∧ ∃ t t' rest, s.stack = t ++ rest ∧ s'.stack = t' ++ rest ∧
    TopChange aborted s'.Ended s.nextWave t t' ∧
      ∀ (u : List (Frame ε)) (P : ℕ → Prop), s.Covers (t ++ u) P → s'.Covers (t' ++ u) P

/-- A change may start a wave, and what has waited still does. -/
def Pushes (aborted : Prop) (s s' : Machine κ ν ε) : Prop :=
  s'.Attached ∧ ∃ new, s'.stack = new ++ s.stack ∧
    TopChange aborted s'.Ended s.nextWave [] new ∧
      ∀ (seg : List (Frame ε)) (P : ℕ → Prop), s.Covers seg P → s'.Covers (new ++ seg) P

/-- A change leaves the stack alone, and what has waited still does. -/
def Leaves (s s' : Machine κ ν ε) : Prop :=
  s'.Attached ∧ s'.stack = s.stack ∧ s'.nextWave = s.nextWave ∧
    ∀ (seg : List (Frame ε)) (P : ℕ → Prop), s.Covers seg P → s'.Covers seg P

variable {aborted : Prop}

/-- Frames are pushed on the stack. -/
theorem Pushes.works (h : Pushes aborted s s') :
  Works aborted s s'
  := by
  obtain ⟨hattached, new, hstack, htop, hcovers⟩ := h
  exact ⟨hattached, [], new, s.stack, rfl, hstack, htop, hcovers⟩

/-- The stack is left alone. -/
theorem Leaves.pushes (h : Leaves s s') (aborted : Prop) :
  Pushes aborted s s'
  := by
  obtain ⟨hattached, hstack, -, hcovers⟩ := h
  exact ⟨hattached, [], hstack, .none rfl, hcovers⟩

/-- The stack is left alone before a wave may start. -/
theorem Leaves.trans {s'' : Machine κ ν ε} (h : Leaves s s') (h' : Pushes aborted s' s'') :
  Pushes aborted s s''
  := by
  obtain ⟨-, hstack, hnextWave, hcovers⟩ := h
  obtain ⟨hattached, new, hstack', htop, hcovers'⟩ := h'
  rw [hstack] at hstack'
  rw [hnextWave] at htop
  exact ⟨hattached, new, hstack', htop, fun seg P hseg => hcovers' seg P (hcovers seg P hseg)⟩

/-- A mild change of the cells. -/
theorem Mild.leaves (h : Mild s s') (hattached : s.Attached) (hstack : s'.stack = s.stack)
    (hnextWave : s'.nextWave = s.nextWave) :
  Leaves s s'
  := ⟨fun n => h.attachedAt (hattached n), hstack, hnextWave, fun _ _ => h.covers⟩

variable {rest : List (Frame ε)}

/-- A mild change of the cells, with a top of the stack that holds more. -/
theorem Mild.works (h : Mild s s') (hattached : s.Attached) {t v : List (Frame ε)}
    (hstack : s.stack = t ++ rest) (hstack' : s'.stack = v ++ rest)
    (htop : TopChange aborted s'.Ended s.nextWave t v) (hholds : ∀ P, Holds t v P) :
  Works aborted s s'
  := by
  refine ⟨fun n => h.attachedAt (hattached n), t, v, rest, hstack, hstack', htop, ?_⟩
  intro u P hcovers
  apply h.covers
  intro n cell p hn hcell hlive hdone hended
  exact (hcovers hn hcell hlive hdone hended).mono ((hholds P).append u) hn

/-- A wave is run. -/
theorem pushes_runCancellationWave (h : s.Attached)
    (htask : (∃ failure ending, task = .own root failure ending) ∨ aborted) :
  Pushes aborted s (s.runCancellationWave root task)
  := by
  have hmild : Mild s (s.runCancellationWave root task) := Mild.of_cells rfl
  refine ⟨fun n => hmild.attachedAt (h n), [.wave s.nextWave root [task] []], rfl,
    .starts root htask, ?_⟩
  intro seg P hcovers
  apply hmild.covers
  intro n cell p hn hcell hlive hdone hended
  exact (hcovers hn hcell hlive hdone hended).mono (Holds.push _ seg P) hn

/-- A context is cancelled. -/
theorem pushes_cancel (h : s.Attached) (aborted : Prop) (n : ℕ) (failure : Failure ε)
    (ending : Ending) :
  Pushes aborted s (s.cancel n failure ending)
  := by
  rw [Machine.cancel]
  cases s.observed n with
  | some _ => exact ((Mild.of_cells rfl).leaves h rfl rfl).pushes aborted
  | none => exact pushes_runCancellationWave h (.inl ⟨failure, ending, rfl⟩)

/-- A cleanup is registered. -/
theorem leaves_addCleanup (h : s.Attached) (n : ℕ) (cleanup : Cleanup) :
  Leaves s (s.addCleanup n cleanup)
  := by
  have hmild : Mild s (s.addCleanup n cleanup) := by
    apply Mild.adjust rfl
    intro cell _
    rw [Cell.addCleanup]
    split
    · exact ⟨rfl, rfl, fun _ => ⟨rfl, fun _ h => h⟩⟩
    · exact ⟨rfl, rfl, fun _ => ⟨rfl, fun _ h => h⟩⟩
  exact hmild.leaves h rfl rfl

/-- A listener is added. -/
theorem mild_addListener (s : Machine κ ν ε) (n : ℕ) (listener : Listener) :
  Mild s (s.addListener n listener)
  := by
  apply Mild.adjust rfl
  intro cell _
  exact ⟨rfl, rfl, fun _ => ⟨rfl, fun _ h => List.mem_append_left _ h⟩⟩

/-- A context is created: it is listed at its parent, unless the parent has ended. -/
theorem leaves_newCancelContext (hs : Grounded s) (h : s.Attached) {parent : Context κ ν}
    (hparent : s.Knows parent) (deadlineEpoch : Option ℤ) (requested : Option (ℤ × ErrorValue ε))
    {failure : Option (Failure ε)}
    (hfailure : failure = none → ∀ p, parent.resolveDone = some (.node p) → ¬ s.Ended p) :
  Leaves s (s.newCancelContext parent deadlineEpoch requested failure)
  := by
  have hsame := registerCancelNode_cells_same s parent deadlineEpoch requested failure
  have hother : ∀ {m : ℕ}, m ≠ s.next →
      (s.registerCancelNode parent deadlineEpoch requested failure).cells m = s.cells m :=
    fun hm => registerCancelNode_cells_of_ne s hm
  have hevolves := evolves_registerCancelNode hs hparent deadlineEpoch requested failure
  have hstack : (s.registerCancelNode parent deadlineEpoch requested failure).stack = s.stack :=
    rfl
  have hnextWave : (s.registerCancelNode parent deadlineEpoch requested failure).nextWave =
      s.nextWave := rfl
  rw [Machine.newCancelContext]
  generalize s.registerCancelNode parent deadlineEpoch requested failure = s₁ at *
  have hended : ∀ {p : ℕ} {ctx : Context κ ν}, s.Knows ctx →
      ctx.resolveDone = some (.node p) → (s₁.Ended p ↔ s.Ended p) := by
    intro p ctx hctx hdone
    obtain ⟨cell, hcell⟩ := hctx.exists_cell (Context.nodes_of_resolveDone hdone)
    rw [Ended, Ended, observed, observed, hother (Nat.ne_of_lt (hs.fresh hcell))]
  have hcovers : ∀ (seg : List (Frame ε)) (P : ℕ → Prop), s.Covers seg P → s₁.Covers seg P := by
    intro seg P hseg n cell p hn hcell hlive hdone hp
    by_cases hnew : n = s.next
    · subst hnew
      obtain rfl := Option.some.inj (hsame.symm.trans hcell)
      exact (hfailure hlive p hdone ((hended hparent hdone).1 hp)).elim
    · rw [hother hnew] at hcell
      exact hseg hn hcell hlive hdone ((hended (hs.known hcell) hdone).1 hp)
  have hattached : ∀ n, n ≠ s.next → s₁.AttachedAt n := by
    intro n hnew cell p hcell hlive hdone hp
    rw [hother hnew] at hcell
    rw [hended (hs.known hcell) hdone] at hp
    obtain ⟨hpending, cell', hcell', hchild⟩ := h n hcell hlive hdone hp
    exact ⟨hpending, cell', by rw [hother (Nat.ne_of_lt (hs.fresh hcell')), hcell'], hchild⟩
  have hall : ∀ {s' : Machine κ ν ε}, Mild s₁ s' → s'.stack = s₁.stack →
      s'.nextWave = s₁.nextWave → s'.AttachedAt s.next → Leaves s s' := by
    intro s' hmild hstack' hnextWave' hnext
    refine ⟨?_, hstack'.trans hstack, hnextWave'.trans hnextWave, ?_⟩
    · intro n
      by_cases hnew : n = s.next
      · subst hnew
        exact hnext
      · exact hmild.attachedAt (hattached n hnew)
    · exact fun seg P hseg => hmild.covers (hcovers seg P hseg)
  cases hdone : parent.resolveDone with
  | none =>
      apply hall (Mild.of_cells rfl) rfl rfl
      intro cell p hcell _ hlink
      obtain rfl := Option.some.inj (hsame.symm.trans hcell)
      rw [newCell, hdone] at hlink
      cases hlink
  | some signal =>
      cases signal with
      | foreign id =>
          apply hall (Mild.of_cells rfl) rfl rfl
          intro cell p hcell _ hlink
          obtain rfl := Option.some.inj (hsame.symm.trans hcell)
          rw [newCell, hdone] at hlink
          cases hlink
      | node q =>
          cases failure with
          | some failure =>
              apply hall (Mild.of_cells rfl) rfl rfl
              intro cell p hcell hlive
              obtain rfl := Option.some.inj (hsame.symm.trans hcell)
              cases hlive
          | none =>
              have hmild := mild_addListener s₁ q (.child s.next)
              apply hall hmild rfl rfl
              intro cell p hcell _ hlink _
              obtain ⟨cell₁, hcell₁⟩ := hparent.exists_cell (Context.nodes_of_resolveDone hdone)
              have hq : s.next ≠ q := Nat.ne_of_gt (hs.fresh hcell₁)
              rw [addListener, adjust_cells_of_ne s₁ hq, hsame] at hcell
              obtain rfl := Option.some.inj hcell
              rw [newCell, hdone] at hlink
              cases hlink
              refine ⟨?_, { cell₁ with listeners := cell₁.listeners ++ [.child s.next] }, ?_, ?_⟩
              · rw [newCell, newRegistration, hdone]
                rfl
              · rw [addListener, adjust_cells_same, hother (Ne.symm hq), hcell₁, Option.map_some]
              · exact List.mem_append_right _ List.mem_cons_self

/-- The timer of a context is started. -/
theorem pushes_startDeadlineTimer (h : s.Attached) (aborted : Prop) (n : ℕ) (cause : ErrorValue ε)
    (start : TimerStart) :
  Pushes aborted s (s.startDeadlineTimer n cause start)
  := by
  have hadd := leaves_addCleanup h n .stopTimer
  cases start with
  | clockFails | due => exact pushes_cancel h aborted n _ _
  | armed =>
      have hmild : Mild (s.addCleanup n .stopTimer)
          ((s.addCleanup n .stopTimer).adjust n (fun cell => { cell with timer := true })) := by
        apply Mild.adjust (by rfl)
        exact fun _ _ => ⟨rfl, rfl, fun _ => ⟨rfl, fun _ h => h⟩⟩
      exact hadd.trans ((hmild.leaves hadd.1 rfl rfl).pushes aborted)
  | timerFails => exact hadd.trans (pushes_cancel hadd.1 aborted n _ _)

/-- A context with a deadline is created. -/
theorem pushes_newTimedContext (hs : Grounded s) (h : s.Attached) (aborted : Prop)
    (methods : ForeignMethods κ ν ε) {parent : Context κ ν} (hparent : s.Knows parent)
    (requestedEpoch : ℤ) (cause : ErrorValue ε) {failure : Option (Failure ε)}
    (hfailure : failure = none → ∀ p, parent.resolveDone = some (.node p) → ¬ s.Ended p)
    (start : TimerStart) :
  Pushes aborted s (s.newTimedContext methods parent requestedEpoch cause failure start)
  := by
  have hown : Pushes aborted s (newTimedContext.own s parent requestedEpoch cause failure start) := by
    have hcreated := leaves_newCancelContext hs h hparent (some requestedEpoch)
      (some (requestedEpoch, cause)) hfailure
    rw [newTimedContext.own]
    split
    · exact hcreated.pushes aborted
    · exact hcreated.trans (pushes_startDeadlineTimer hcreated.1 aborted _ _ _)
  rw [Machine.newTimedContext]
  split
  · split
    · exact (leaves_newCancelContext hs h hparent _ _ hfailure).pushes aborted
    · exact hown
  · exact hown

/-- A context that exists has ended after it was ended. -/
theorem settle_ended {cell : Cell κ ν ε} (hcell : s.cells n = some cell) (failure : Failure ε)
    (ending : Ending) :
  (s.settle n failure ending).Ended n
  := by
  cases hobserved : cell.observed with
  | none =>
      rw [settle_of_live hcell hobserved]
      refine ⟨failure, ?_⟩
      rw [observed, adjust_cells_same, hcell]
      rfl
  | some recorded =>
      rw [settle_of_ended]
      · exact ⟨recorded, by rw [observed, hcell, Option.bind_some, hobserved]⟩
      · intro cell' hcell'
        obtain rfl := Option.some.inj (hcell.symm.trans hcell')
        rw [hobserved]
        rintro ⟨⟩

/-- A context is ended, and those that are listed there wait for the listeners to be called. -/
theorem settle_pushes (h : s.Attached) (n : ℕ) (failure : Failure ε) (ending : Ending) :
  (s.settle n failure ending).Attached ∧
    ∃ new, (s.settle n failure ending).stack = new ++ s.stack ∧ waves new = [] ∧
      ∀ (seg : List (Frame ε)) (P : ℕ → Prop), s.Covers seg (fun m => P m ∧ m ≠ n) →
        (s.settle n failure ending).Covers (new ++ seg) P
  := by
  obtain ⟨cell, hcell, hobserved⟩ | hended := s.settles_or n
  · rw [settle_of_live hcell hobserved]
    have hsame := adjust_cells_same
      { s with stack := .dispatch n cell.listeners cell.cleanups :: s.stack } n
      (Cell.finish failure ending)
    have hother : ∀ {m}, m ≠ n → _ := fun hm => adjust_cells_of_ne
      { s with stack := .dispatch n cell.listeners cell.cleanups :: s.stack } hm
      (Cell.finish failure ending)
    have hstack := adjust_stack
      { s with stack := .dispatch n cell.listeners cell.cleanups :: s.stack } n
      (Cell.finish failure ending)
    generalize ({ s with stack := .dispatch n cell.listeners cell.cleanups :: s.stack } :
      Machine κ ν ε).adjust n (Cell.finish failure ending) = s' at *
    simp only [hcell, Option.map_some] at hsame hother hstack
    have hlive : ¬ s.Ended n := by
      rintro ⟨failure', hended⟩
      rw [observed, hcell, Option.bind_some, hobserved] at hended
      cases hended
    have hended : ∀ {p : ℕ}, p ≠ n → (s'.Ended p ↔ s.Ended p) := by
      intro p hp
      rw [Ended, Ended, observed, observed, hother hp]
    have hne : ∀ {m : ℕ} {cell' : Cell κ ν ε}, s'.cells m = some cell' →
        cell'.observed = none → m ≠ n := by
      rintro m cell' hcell' hlive' rfl
      obtain rfl := Option.some.inj (hsame.symm.trans hcell')
      cases hlive'
    refine ⟨?_, [.dispatch n cell.listeners cell.cleanups], hstack, rfl, ?_⟩
    · intro m cell' p hcell' hlive' hdone hp
      have hm := hne hcell' hlive'
      rw [hother hm] at hcell'
      have hpn : p ≠ n := by
        rintro rfl
        exact hp ⟨failure, by rw [observed, hsame]; rfl⟩
      rw [hended hpn] at hp
      obtain ⟨hpending, pcell, hpcell, hchild⟩ := h m hcell' hlive' hdone hp
      exact ⟨hpending, pcell, by rw [hother hpn, hpcell], hchild⟩
    · intro seg P hcovers m cell' p hm hcell' hlive' hdone hp
      have hmn := hne hcell' hlive'
      rw [hother hmn] at hcell'
      by_cases hpn : p = n
      · subst hpn
        obtain ⟨hpending, pcell, hpcell, hchild⟩ := h m hcell' hlive' hdone hlive
        obtain rfl := Option.some.inj (hcell.symm.trans hpcell)
        exact .inl ⟨hpending, cell.listeners, cell.cleanups, List.mem_cons_self, hchild⟩
      · rw [hended hpn] at hp
        exact (hcovers ⟨hm, hmn⟩ hcell' hlive' hdone hp).mono (Holds.push _ seg P) hm
  · rw [settle_of_ended hended]
    refine ⟨h, [], rfl, rfl, ?_⟩
    intro seg P hcovers m cell p hm hcell hlive hdone hp
    apply hcovers ⟨hm, _⟩ hcell hlive hdone hp
    rintro rfl
    exact hended cell hcell hlive

/-- The listener of a child is called, and its end is queued. -/
theorem Covers.mark (h : s.Covers seg (fun m => P m ∧ m ≠ n))
    (hn : ∀ p, s.link n = some (.node p) → Queued seg n) :
  (s.adjust n (fun cell => { cell with registration := .admitted })).Covers seg P
  := by
  intro m cell p hm hcell hlive hdone hp
  have hended : s.Ended p := by
    obtain ⟨failure, hp⟩ := hp
    refine ⟨failure, ?_⟩
    rw [observed] at hp ⊢
    by_cases hpn : p = n
    · subst hpn
      rw [adjust_cells_same] at hp
      cases hcell : s.cells p with
      | none =>
          rw [hcell] at hp
          cases hp
      | some cell =>
          rw [hcell] at hp
          exact hp
    · rw [adjust_cells_of_ne s hpn] at hp
      exact hp
  by_cases hmn : m = n
  · subst hmn
    rw [adjust_cells_same, Option.map_eq_some_iff] at hcell
    obtain ⟨cell, hcell, rfl⟩ := hcell
    right
    apply hn p
    rw [link, hcell, Option.bind_some]
    exact hdone
  · rw [adjust_cells_of_ne s hmn] at hcell
    exact h ⟨hm, hmn⟩ hcell hlive hdone hended

/-- The listener of a child is called, which is not listed at a context that has not ended. -/
theorem Attached.mark (h : s.Attached) (hn : ∀ p, s.link n = some (.node p) → s.Ended p) :
  (s.adjust n (fun cell => { cell with registration := .admitted })).Attached
  := by
  have hextends : ∀ {p : ℕ}, s.Ended p →
      (s.adjust n (fun cell => { cell with registration := .admitted })).Ended p := by
    rintro p ⟨failure, hp⟩
    refine ⟨failure, ?_⟩
    rw [observed] at hp ⊢
    by_cases hpn : p = n
    · subst hpn
      obtain ⟨cell, hcell, hobserved⟩ := Option.bind_eq_some_iff.1 hp
      rw [adjust_cells_same, hcell]
      exact hobserved
    · rw [adjust_cells_of_ne s hpn]
      exact hp
  intro m cell p hcell hlive hdone hp
  by_cases hmn : m = n
  · subst hmn
    rw [adjust_cells_same, Option.map_eq_some_iff] at hcell
    obtain ⟨cell, hcell, rfl⟩ := hcell
    apply (hp (hextends (hn p _))).elim
    rw [link, hcell, Option.bind_some]
    exact hdone
  · rw [adjust_cells_of_ne s hmn] at hcell
    obtain ⟨hpending, pcell, hpcell, hchild⟩ :=
      h m hcell hlive hdone (fun hended => hp (hextends hended))
    refine ⟨hpending, ?_⟩
    by_cases hpn : p = n
    · subst hpn
      exact ⟨{ pcell with registration := .admitted },
        by rw [adjust_cells_same, hpcell, Option.map_some], hchild⟩
    · exact ⟨pcell, by rw [adjust_cells_of_ne s hpn, hpcell], hchild⟩

/-- The signal of a foreign parent is aborted when no wave runs. -/
theorem pushes_foreignAborts (h : s.Attached) (hidle : ¬ s.InWave)
    (hlink : s.link n = some (.foreign id)) (haborted : aborted) :
  Pushes aborted s (s.cancelFromParent n)
  := by
  have hno : ∀ p, s.link n ≠ some (.node p) := by
    intro p hp
    rw [hlink] at hp
    cases hp
  rw [cancelFromParent]
  split
  · rw [enqueueParentCancellation, adjust_stack, enqueue_eq_none (waves_eq_nil hidle)]
    have hmarked : Leaves s
        (s.adjust n (fun cell => { cell with registration := .admitted })) := by
      refine ⟨h.mark (fun p hp => (hno p hp).elim), rfl, rfl, ?_⟩
      intro seg P hcovers
      apply Covers.mark _ (fun p hp => (hno p hp).elim)
      exact fun _ _ _ hm => hcovers hm.1
    exact hmarked.trans (pushes_runCancellationWave hmarked.1 (.inr haborted))
  · exact ((Mild.of_cells rfl).leaves h rfl rfl).pushes aborted

/-- A task is taken off the queue of a wave, and its context is ended. -/
theorem works_takes (h : s.Attached)
    (hstack : s.stack = .wave id root (task :: tasks) cleanupFrames :: rest)
    (htask : ∀ m, m ≠ n → task ≠ .fromParent m) (failure : Failure ε) (ending : Ending)
    (hdone : ∀ m failure' ending', task = .own m failure' ending' → m = n ∧ ∃ cell, s.cells n = some cell)
    (aborted : Prop) :
  Works aborted s (({ s with stack := .wave id root tasks cleanupFrames :: rest } : Machine κ ν ε).settle n
    failure ending)
  := by
  have hattached : ({ s with stack := .wave id root tasks cleanupFrames :: rest } :
      Machine κ ν ε).Attached := h
  obtain ⟨hattached', new, hnew, hno, hcovers⟩ := settle_pushes hattached n failure ending
  refine ⟨hattached', [.wave id root (task :: tasks) cleanupFrames],
    new ++ [.wave id root tasks cleanupFrames], rest, hstack, ?_,
    .works id root (y := []) hno ?_, ?_⟩
  · rw [hnew, List.append_assoc]
    rfl
  · intro m failure' ending' hown
    obtain heq | hown := List.mem_cons.1 hown
    · obtain ⟨rfl, cell, hcell⟩ := hdone m failure' ending' heq.symm
      have hcell' : ({ s with stack := .wave id root tasks cleanupFrames :: rest } :
          Machine κ ν ε).cells m = some cell := hcell
      exact .inr (settle_ended hcell' failure ending)
    · exact .inl hown
  · intro u P hbefore
    rw [List.append_assoc]
    apply hcovers
    intro m cell p hm hcell hlive hlink hp
    have hholds : Holds [.wave id root (task :: tasks) cleanupFrames]
        [.wave id root tasks cleanupFrames] (fun m => P m ∧ m ≠ n) :=
      Holds.takes (fun m hm => htask m hm.2)
    exact (hbefore hm.1 hcell hlive hlink hp).mono (hholds.append u) hm

/-- The listener of a child is called by the dispatch on top, and the child waits in the queue of
the wave below. -/
theorem works_callsChild (h : s.Sound) (hattached : s.Attached) {node child : ℕ}
    {listeners : List Listener} {pending : List Cleanup}
    (hstack : s.stack = .dispatch node (.child child :: listeners) pending :: rest)
    (aborted : Prop) :
  Works aborted s (({ s with stack := .dispatch node listeners pending :: rest } :
    Machine κ ν ε).cancelFromParent child)
  := by
  have hsound := h.stack
  rw [hstack] at hsound
  obtain ⟨hdispatch, -⟩ := hsound
  cases rest with
  | nil => cases hdispatch
  | cons frame rest =>
      cases frame with
      | code | dispatch => cases hdispatch
      | wave id root tasks cleanupFrames =>
          obtain ⟨-, hunder, -, -, hlinks⟩ := hdispatch
          have hlink := hlinks child List.mem_cons_self
          have hpop : ∀ P : ℕ → Prop, (∀ m, P m → m ≠ child) →
              Holds [.dispatch node (.child child :: listeners) pending,
                  .wave id root tasks cleanupFrames]
                [.dispatch node listeners pending, .wave id root tasks cleanupFrames] P := by
            intro P hP
            constructor
            case listed =>
              rintro p m hm ⟨listeners', pending', hmem, hchild⟩
              obtain heq | hmem := List.mem_cons.1 hmem
              · cases heq
                obtain heq | hchild := List.mem_cons.1 hchild
                · cases heq
                  exact (hP _ hm rfl).elim
                · exact ⟨listeners, pending, List.mem_cons_self, hchild⟩
              · cases List.mem_singleton.1 hmem
            case queued =>
              rintro m - ⟨id', root', tasks', cleanupFrames', hmem, hqueued⟩
              obtain heq | hmem := List.mem_cons.1 hmem
              · cases heq
              · exact ⟨id', root', tasks', cleanupFrames', List.mem_cons_of_mem _ hmem, hqueued⟩
          rw [cancelFromParent]
          split
          · rename_i hpending
            rw [enqueueParentCancellation, adjust_stack, enqueue, enqueue, Option.map_some]
            refine ⟨Attached.mark (s := { s with
                stack := .dispatch node listeners pending ::
                  .wave id root tasks cleanupFrames :: rest }) hattached ?_,
              [.dispatch node (.child child :: listeners) pending,
                .wave id root tasks cleanupFrames],
              [.dispatch node listeners pending,
                .wave id root (tasks ++ [.fromParent child]) cleanupFrames],
              rest, hstack, rfl,
              .works id root (y := [_]) (z := [_]) rfl
                (fun _ _ _ hown => .inl (List.mem_append_left _ hown)), ?_⟩
            · intro p hp
              rw [show s.link child = some (.node p) from hp] at hlink
              cases hlink
              exact hunder.self
            · intro u P hcovers
              apply Covers.mark (s := { s with
                stack := .dispatch node listeners pending ::
                  .wave id root (tasks ++ [.fromParent child]) cleanupFrames :: rest })
              · have hqueue : Holds
                    [.dispatch node listeners pending, .wave id root tasks cleanupFrames]
                    [.dispatch node listeners pending,
                      .wave id root (tasks ++ [.fromParent child]) cleanupFrames]
                    (fun m => P m ∧ m ≠ child) := by
                  constructor
                  case listed =>
                    rintro p m - ⟨listeners', pending', hmem, hchild⟩
                    obtain heq | hmem := List.mem_cons.1 hmem
                    · cases heq
                      exact ⟨listeners, pending, List.mem_cons_self, hchild⟩
                    · cases List.mem_singleton.1 hmem
                  case queued =>
                    rintro m - ⟨id', root', tasks', cleanupFrames', hmem, hqueued⟩
                    obtain heq | hmem := List.mem_cons.1 hmem
                    · cases heq
                    · cases List.mem_singleton.1 hmem
                      exact ⟨id, root, _, cleanupFrames, List.mem_cons_of_mem _ List.mem_cons_self,
                        List.mem_append_left _ hqueued⟩
                intro m cell p hm hcell hlive hdone hp
                exact (hcovers hm.1 hcell hlive hdone hp).mono
                  (((hpop _ (fun m hm => hm.2)).trans hqueue).append u) hm
              · intro p _
                exact ⟨id, root, _, cleanupFrames, List.mem_cons_of_mem _ List.mem_cons_self,
                  List.mem_append_right _ List.mem_cons_self⟩
          · rename_i hnot
            refine ⟨hattached, [.dispatch node (.child child :: listeners) pending,
                .wave id root tasks cleanupFrames],
              [.dispatch node listeners pending, .wave id root tasks cleanupFrames],
              rest, hstack, rfl,
              .works id root (y := [_]) (z := [_]) rfl (fun _ _ _ => .inl), ?_⟩
            intro u P hcovers m cell p hm hcell hlive hdone hp
            have hwaiting := hcovers hm hcell hlive hdone hp
            by_cases hmc : m = child
            · subst hmc
              obtain ⟨hpending, -⟩ | ⟨id', root', tasks', cleanupFrames', hmem, hqueued⟩ := hwaiting
              · have hcell' : ({ s with
                    stack := .dispatch node listeners pending ::
                      .wave id root tasks cleanupFrames :: rest } : Machine κ ν ε).cells m =
                    some cell := hcell
                rw [hcell', Option.map_some, hpending] at hnot
                exact (hnot rfl).elim
              · obtain heq | hmem := List.mem_cons.1 hmem
                · cases heq
                · exact .inr ⟨id', root', tasks', cleanupFrames', List.mem_cons_of_mem _ hmem,
                    hqueued⟩
            · exact hwaiting.mono
                ((hpop (fun m => P m ∧ m ≠ child) (fun m hm => hm.2)).append u) ⟨hm, hmc⟩

/-- Without waves no signal is being dispatched. -/
theorem StackSound.not_dispatch {stack : List (Frame ε)} (h : s.StackSound stack)
    (hwaves : waves stack = []) {node : ℕ} {listeners : List Listener} {pending : List Cleanup}
    (hmem : .dispatch node listeners pending ∈ stack) :
  False
  := by
  induction stack with
  | nil => cases hmem
  | cons frame rest ih =>
      cases frame with
      | code origin =>
          obtain heq | hmem := List.mem_cons.1 hmem
          · cases heq
          · exact ih h.2 hwaves hmem
      | dispatch node' listeners' pending' =>
          have hdispatch : s.DispatchSound node' listeners' rest := h.1
          cases rest with
          | nil => cases hdispatch
          | cons frame rest =>
              cases frame with
              | code | dispatch => cases hdispatch
              | wave id root tasks cleanupFrames => cases hwaves
      | wave id root tasks cleanupFrames => cases hwaves

section

variable [DecidableEq κ]

variable {s : Machine κ ν ε}

/-- A context that is not created as one that has ended has no parent that has. -/
theorem initialFailure_eq_none {methods : ForeignMethods κ ν ε} {foreignAborted : Bool}
    {parent : Context κ ν} (h : s.initialFailure methods foreignAborted parent = none) {p : ℕ}
    (hp : parent.resolveDone = some (.node p)) :
  ¬ s.Ended p
  := by
  rintro ⟨failure, hended⟩
  simp only [initialFailure, hp, hended, Option.isSome_some, if_true] at h
  cases h

/-- Every step carries on what waits. -/
theorem Step.works {aborts : Machine κ ν ε → Prop} {s' : Machine κ ν ε}
    (hidle : aborts s → ¬ s.InWave) (h : s.Sound) (hrecorded : s.Recorded) (hattached : s.Attached)
    (hstep : Step aborts s s') :
  Works (aborts s) s s'
  := by
  have hsound := h.stack
  cases hstep with
  | withCancel _ methods foreignAborted parent hparent =>
      exact (leaves_newCancelContext h.grounded hattached hparent _ _
        (fun hnone p hp => initialFailure_eq_none hnone hp)).pushes _ |>.works
  | withDeadline _ methods foreignAborted parent hparent requestedEpoch cause start =>
      exact (pushes_newTimedContext h.grounded hattached _ methods hparent _ _
        (fun hnone p hp => initialFailure_eq_none hnone hp) _).works
  | addCleanup _ node callback => exact ((leaves_addCleanup hattached node _).pushes _).works
  | addListener _ node callback =>
      exact (((mild_addListener s node _).leaves hattached rfl rfl).pushes _).works
  | cancelFunc _ node cause hnode | deadline _ node hcell htimer hrequested =>
      exact (pushes_cancel hattached _ node _ _).works
  | @foreignAborts origin rest hstack haborts node cell hcell id hparent =>
      have hlink : s.link node = some (.foreign id) := by
        rw [link, hcell, Option.bind_some, hparent]
      exact (pushes_foreignAborts hattached (hidle haborts) hlink haborts).works
  | @listenerEnds callback rest hstack | @cleanupEnds callback rest hstack =>
      have hmild : Mild s { s with stack := rest } := Mild.of_cells rfl
      apply hmild.works hattached (t := [_]) (v := []) hstack rfl (.none rfl)
      exact Holds.pop (by rintro p l c ⟨⟩) (by rintro a b c d ⟨⟩) []
  | @parentRead node rest hstack methods cell hcell =>
      have hpop : ({ s with stack := rest } : Machine κ ν ε).Attached := hattached
      obtain ⟨hattached', new, hnew, hno, hcovers⟩ := settle_pushes hpop node
        (cell.parent.readParentFailure methods s.observed) .parentEnd
      refine ⟨hattached', [.code (.reading node)], new, rest, hstack, hnew, .none hno, ?_⟩
      intro u P hbefore
      apply hcovers
      intro n cell p hn hcell hlive hdone hp
      have hholds : Holds ([.code (.reading node)] ++ u) u (fun m => P m ∧ m ≠ node) :=
        Holds.pop (by rintro p l c ⟨⟩) (by rintro a b c d ⟨⟩) u _
      exact (hbefore hn.1 hcell hlive hdone hp).mono hholds hn
  | @parentThrows node id root tasks cleanupFrames rest hstack =>
      rw [hstack] at hsound
      obtain ⟨⟨-, -, rfl, -⟩, -⟩ := hsound
      have hmild : Mild s { s with stack := rest } := Mild.of_cells rfl
      apply hmild.works hattached (t := [_, _]) (v := []) hstack rfl (.none rfl)
      intro P
      apply (Holds.pop (by rintro p l c ⟨⟩) (by rintro a b c d ⟨⟩) _ P).trans
      apply Holds.pop (by rintro p l c ⟨⟩)
      rintro a b c d ⟨⟩
      rfl
  | takesOwn hstack =>
      have hframes := hrecorded.frames
      rw [hstack] at hframes
      apply works_takes hattached hstack
      · rintro m - ⟨⟩
      · rintro m failure' ending' ⟨⟩
        obtain ⟨cell, hcell, -⟩ := hframes _ List.mem_cons_self _ List.mem_cons_self
        exact ⟨rfl, cell, hcell⟩
  | takesChild hstack hcell hparent methods =>
      apply works_takes hattached hstack
      · rintro m hm ⟨⟩
        exact hm rfl
      · rintro m failure' ending' ⟨⟩
  | @readsParent id root node tasks cleanupFrames rest hstack cell hcell foreign hparent =>
      refine ⟨hattached, [.wave id root (.fromParent node :: tasks) cleanupFrames],
        [.code (.reading node), .wave id root tasks cleanupFrames], rest, hstack, rfl,
        .works id root (y := []) (z := [_]) rfl ?_, ?_⟩
      · intro m failure ending hown
        obtain heq | hown := List.mem_cons.1 hown
        · cases heq
        · exact .inl hown
      intro u P hcovers n cell' p hn hcell' hlive hdone hp
      have hne : n ≠ node := by
        rintro rfl
        obtain rfl := Option.some.inj (hcell.symm.trans hcell')
        rw [hdone] at hparent
        cases hparent
      have htakes : Holds [.wave id root (.fromParent node :: tasks) cleanupFrames]
          [.wave id root tasks cleanupFrames] (fun m => P m ∧ m ≠ node) := by
        apply Holds.takes
        rintro m hm ⟨⟩
        exact hm.2 rfl
      have hholds := htakes.trans (Holds.push [.code (.reading node)] _ _)
      exact (hcovers hn hcell' hlive hdone hp).mono (hholds.append u) ⟨hn, hne⟩
  | callsChild hstack => exact works_callsChild h hattached hstack _
  | @callsRaw node callback listeners pending rest hstack =>
      have hmild : Mild s { s with
          stack := .code (.listener callback) :: .dispatch node listeners pending :: rest } :=
        Mild.of_cells rfl
      apply hmild.works hattached (t := [_]) (v := [_, _]) hstack rfl (.none rfl)
      intro P
      constructor
      case listed =>
        rintro p n - ⟨listeners', pending', hmem, hchild⟩
        cases List.mem_singleton.1 hmem
        obtain heq | hchild := List.mem_cons.1 hchild
        · cases heq
        · exact ⟨listeners, pending, List.mem_cons_of_mem _ List.mem_cons_self, hchild⟩
      case queued =>
        rintro n - ⟨id, root, tasks, cleanupFrames, hmem, hqueued⟩
        cases List.mem_singleton.1 hmem
  | @dispatched node id root pending tasks cleanupFrames rest hstack =>
      have hmild : ∀ frames, Mild s { s with stack := .wave id root tasks frames :: rest } :=
        fun _ => Mild.of_cells rfl
      apply (hmild _).works hattached (t := [_, _]) (v := [_]) hstack rfl
        (.works id root (y := [_]) (z := []) rfl (fun _ _ _ => .inl))
      intro P
      have hpop : Holds [.dispatch node [] pending, .wave id root tasks cleanupFrames]
          [.wave id root tasks cleanupFrames] P := by
        apply Holds.pop _ (by rintro a b c d ⟨⟩)
        rintro p l c ⟨⟩
        rfl
      exact hpop.trans Holds.cleanups
  | @stopsParent id root node cleanups cleanupFrames rest hstack =>
      rw [hstack] at hsound
      obtain ⟨failure, hended⟩ := (WaveSound.under hsound.1 _ List.mem_cons_self).self
      have hmild : Mild s (({ s with
          stack := .wave id root [] ((node, cleanups) :: cleanupFrames) :: rest
          ran := s.ran ++ [⟨id, node, .stopParent⟩] } : Machine κ ν ε).adjust node
            Cell.stopParent) := by
        apply Mild.adjust (by rfl)
        intro cell hcell
        have hobserved : cell.observed = some failure := by
          rw [observed, hcell, Option.bind_some] at hended
          exact hended
        rw [Cell.stopParent]
        refine ⟨?_, ?_, ?_⟩
        · split
          · rfl
          · rfl
        · split
          · rfl
          · rfl
        · intro hlive
          rw [hobserved] at hlive
          cases hlive
      exact hmild.works hattached (t := [_]) (v := [_]) hstack rfl
        (.works id root (y := []) (z := []) rfl (fun _ _ _ => .inl)) (fun _ => Holds.cleanups)
  | @stopsTimer id root node cleanups cleanupFrames rest hstack =>
      have hmild : Mild s (({ s with
          stack := .wave id root [] ((node, cleanups) :: cleanupFrames) :: rest
          ran := s.ran ++ [⟨id, node, .stopTimer⟩] } : Machine κ ν ε).adjust node
            (fun cell => { cell with timer := false })) := by
        apply Mild.adjust (by rfl)
        exact fun _ _ => ⟨rfl, rfl, fun _ => ⟨rfl, fun _ h => h⟩⟩
      exact hmild.works hattached (t := [_]) (v := [_]) hstack rfl
        (.works id root (y := []) (z := []) rfl (fun _ _ _ => .inl)) (fun _ => Holds.cleanups)
  | @runsWork id root node callback cleanups cleanupFrames rest hstack =>
      have hmild : Mild s { s with
          stack := .code (.cleanup callback) ::
            .wave id root [] ((node, cleanups) :: cleanupFrames) :: rest
          ran := s.ran ++ [⟨id, node, .work callback⟩] } := Mild.of_cells rfl
      apply hmild.works hattached (t := [_]) (v := [_, _]) hstack rfl
        (.works id root (y := []) (z := [_]) rfl (fun _ _ _ => .inl))
      exact fun P => Holds.cleanups.trans (Holds.push [_] _ P)
  | @cleanupsEnd id root node cleanupFrames rest hstack =>
      have hmild : Mild s { s with stack := .wave id root [] cleanupFrames :: rest } :=
        Mild.of_cells rfl
      exact hmild.works hattached (t := [_]) (v := [_]) hstack rfl
        (.works id root (y := []) (z := []) rfl (fun _ _ _ => .inl)) (fun _ => Holds.cleanups)
  | @waveEnds id root rest hstack =>
      have hmild : Mild s { s with stack := rest } := Mild.of_cells rfl
      apply hmild.works hattached (t := [_]) (v := []) hstack rfl (.none rfl)
      apply Holds.pop (by rintro p l c ⟨⟩)
      rintro a b c d ⟨⟩
      rfl

/-- In a run, what has not ended is listed at its parent, or waits. -/
theorem Reachable.attached (h : Reachable (fun s => ¬ s.InWave) s) :
  s.Attached ∧ s.Covers s.stack (fun _ => True)
  := by
  induction h with
  | refl =>
      refine ⟨?_, ?_⟩
      · intro n cell p hcell
        cases hcell
      · intro n cell p _ hcell
        cases hcell
  | tail hrun hstep ih =>
      obtain ⟨hattached, t, t', rest, hstack, hstack', -, hcovers⟩ :=
        hstep.works (fun hidle => hidle) (Reachable.sound hrun) (Reachable.recorded hrun) ih.1
      refine ⟨hattached, ?_⟩
      rw [hstack']
      apply hcovers
      rw [← hstack]
      exact ih.2

/-- When no wave runs, a context has ended that is linked to one that has. -/
theorem Reachable.ended_of_link (h : Reachable (fun s => ¬ s.InWave) s) (hidle : ¬ s.InWave)
    {n p : ℕ} (hlink : s.link n = some (.node p)) (hp : s.Ended p) :
  s.Ended n
  := by
  obtain ⟨cell, hcell, hdone⟩ := Option.bind_eq_some_iff.1 hlink
  cases hobserved : cell.observed with
  | some failure => exact ⟨failure, by rw [observed, hcell, Option.bind_some, hobserved]⟩
  | none =>
      have hno := waves_eq_nil hidle
      obtain ⟨-, listeners, pending, hmem, -⟩ | ⟨id, root, tasks, cleanupFrames, hmem, -⟩ :=
        h.attached.2 trivial hcell hobserved hdone hp
      · exact (h.sound.stack.not_dispatch hno hmem).elim
      · exact (hidle ⟨id, root, tasks, cleanupFrames, hmem⟩).elim

end

end Machine

end ContextTree
