import GoLike.Context.Descendants

/-!
# The subtree of a cancellation

A cancel function returns when its wave has come to its end. By then the whole subtree has ended,
provided that nothing in it was waiting in an outer wave when the function was called. The
contexts that a wave ends are those of the subtree, and their records are final.
-/

namespace ContextTree

/-- The context that a task is to end. -/
def Task.node {ε : Type} : Task ε → ℕ
  | .own node _ _ => node
  | .fromParent node => node

namespace Machine

variable {κ ν ε : Type}

/-! ### What a step leaves as it is -/

/-- The records of the contexts stay as they are. -/
def Quiet (s s' : Machine κ ν ε) : Prop :=
  ∀ ⦃n : ℕ⦄ ⦃cell : Cell κ ν ε⦄, s.cells n = some cell →
    ∃ cell', s'.cells n = some cell' ∧ cell'.observed = cell.observed

/-- Two changes leave the records as they are. -/
theorem Quiet.trans {s s' s'' : Machine κ ν ε} (h : Quiet s s') (h' : Quiet s' s'') :
  Quiet s s''
  := by
  intro n cell hcell
  obtain ⟨cell', hcell', hobserved⟩ := h hcell
  obtain ⟨cell'', hcell'', hobserved'⟩ := h' hcell'
  exact ⟨cell'', hcell'', hobserved'.trans hobserved⟩

/-- The cells stay as they are. -/
theorem Quiet.of_cells {s s' : Machine κ ν ε} (h : s'.cells = s.cells) :
  Quiet s s'
  := by
  intro n cell hcell
  exact ⟨cell, by rw [h, hcell], rfl⟩

/-- A change of a cell that keeps its record. -/
theorem Quiet.adjust (s : Machine κ ν ε) (n : ℕ) {f : Cell κ ν ε → Cell κ ν ε}
    (hf : ∀ cell, (f cell).observed = cell.observed) :
  Quiet s (s.adjust n f)
  := by
  intro m cell hcell
  by_cases hm : m = n
  · subst hm
    exact ⟨f cell, by rw [adjust_cells_same, hcell, Option.map_some], hf cell⟩
  · exact ⟨cell, by rw [adjust_cells_of_ne s hm, hcell], rfl⟩

/-- A cleanup is registered. -/
theorem quiet_addCleanup (s : Machine κ ν ε) (n : ℕ) (cleanup : Cleanup) :
  Quiet s (s.addCleanup n cleanup)
  := by
  apply Quiet.adjust
  intro cell
  rw [Cell.addCleanup]
  split
  · rfl
  · rfl

/-- A context is cancelled, and ended later. -/
theorem quiet_cancel (s : Machine κ ν ε) (n : ℕ) (failure : Failure ε) (ending : Ending) :
  Quiet s (s.cancel n failure ending)
  := by
  rw [Machine.cancel]
  cases s.observed n with
  | some | none => exact Quiet.of_cells rfl

/-- A context is created. -/
theorem quiet_newCancelContext {s : Machine κ ν ε} (hs : Grounded s) (parent : Context κ ν)
    (deadlineEpoch : Option ℤ) (requested : Option (ℤ × ErrorValue ε))
    (failure : Option (Failure ε)) :
  Quiet s (s.newCancelContext parent deadlineEpoch requested failure)
  := by
  have hcreated : Quiet s (s.registerCancelNode parent deadlineEpoch requested failure) := by
    intro n cell hcell
    refine ⟨cell, ?_, rfl⟩
    rw [registerCancelNode_cells_of_ne s (Nat.ne_of_lt (hs.fresh hcell)), hcell]
  rw [Machine.newCancelContext]
  split
  · split
    · exact hcreated
    · exact hcreated.trans (Quiet.adjust _ _ (fun _ => rfl))
  · exact hcreated

/-- A context with a deadline is created. -/
theorem quiet_newTimedContext {s : Machine κ ν ε} (hs : Grounded s)
    (methods : ForeignMethods κ ν ε) (parent : Context κ ν) (requestedEpoch : ℤ)
    (cause : ErrorValue ε) (failure : Option (Failure ε)) (start : TimerStart) :
  Quiet s (s.newTimedContext methods parent requestedEpoch cause failure start)
  := by
  have hown : Quiet s (newTimedContext.own s parent requestedEpoch cause failure start) := by
    have hcreated := quiet_newCancelContext hs parent (some requestedEpoch)
      (some (requestedEpoch, cause)) failure
    rw [newTimedContext.own]
    split
    · exact hcreated
    · apply hcreated.trans
      cases start with
      | clockFails | due => exact quiet_cancel _ _ _ _
      | armed => exact (quiet_addCleanup _ _ _).trans (Quiet.adjust _ _ (fun _ => rfl))
      | timerFails => exact (quiet_addCleanup _ _ _).trans (quiet_cancel _ _ _ _)
  rw [Machine.newTimedContext]
  split
  · split
    · exact quiet_newCancelContext hs _ _ _ _
    · exact hown
  · exact hown

/-- The listener of a child is called. -/
theorem quiet_cancelFromParent (s : Machine κ ν ε) (n : ℕ) :
  Quiet s (s.cancelFromParent n)
  := by
  rw [cancelFromParent]
  split
  · have hmarked : Quiet s (s.adjust n (fun cell => { cell with registration := .admitted })) :=
      Quiet.adjust _ _ (fun _ => rfl)
    rw [enqueueParentCancellation]
    split
    · exact hmarked.trans (Quiet.of_cells rfl)
    · exact hmarked.trans (Quiet.of_cells rfl)
  · exact Quiet.of_cells rfl

/-- Only the context that is ended ends. -/
theorem settle_ended_eq {s : Machine κ ν ε} {n m : ℕ} {failure : Failure ε} {ending : Ending}
    (hlive : ¬ s.Ended m)
    (h : (s.settle n failure ending).Ended m) :
  m = n
  := by
  by_cases hm : m = n
  · exact hm
  · apply (hlive _).elim
    obtain ⟨cell, hcell, hobserved⟩ | hended := s.settles_or n
    · rw [settle_of_live hcell hobserved] at h
      obtain ⟨failure', h⟩ := h
      rw [observed, adjust_cells_of_ne _ hm] at h
      exact ⟨failure', h⟩
    · rw [settle_of_ended hended] at h
      exact h

/-- A context that a quiet change ends has ended before. -/
theorem Quiet.not_ended {s s' : Machine κ ν ε} (h : Quiet s s') {n : ℕ} {cell : Cell κ ν ε}
    (hcell : s.cells n = some cell) (hlive : ¬ s.Ended n) :
  ¬ s'.Ended n
  := by
  rintro ⟨failure, hended⟩
  obtain ⟨cell', hcell', hobserved⟩ := h hcell
  rw [observed, hcell', Option.bind_some, hobserved] at hended
  exact hlive ⟨failure, by rw [observed, hcell, Option.bind_some, hended]⟩

/-! ### Cancellations -/

/-- A context waits for its end: its parent has ended. -/
def Waits (s : Machine κ ν ε) (n : ℕ) : Prop :=
  ∃ cell p, s.cells n = some cell ∧ cell.observed = none ∧
    cell.parent.resolveDone = some (.node p) ∧ s.Ended p

/-- Nothing below a context waits for its end. -/
def Clean (s : Machine κ ν ε) (root : ℕ) : Prop :=
  ∀ n, s.Below root n → ¬ s.Waits n

section

variable [DecidableEq κ]

/-- A step which, if it starts a wave for a context, does so when nothing below the context
waits. -/
def CleanStep (s s' : Machine κ ν ε) : Prop :=
  Step (fun _ => False) s s' ∧ ∀ root task,
    s'.stack = .wave s.nextWave root [task] [] :: s.stack → s.Clean root

/-- What a cancellation has to do. -/
structure Cancelled (s : Machine κ ν ε) : Prop where
  /-- When the wave has come to its end, the subtree has ended. -/
  subtree : ∀ {id root : ℕ} {rest : List (Frame ε)}, s.stack = .wave id root [] [] :: rest →
    s.Ended root ∧ ∀ {n : ℕ}, s.Below root n → s.Ended n
  /-- What a step ends belongs to the subtree of the wave that runs. -/
  outside : ∀ {s' : Machine κ ν ε} {n : ℕ}, Step (fun _ => False) s s' →
    (∃ cell, s.cells n = some cell) → ¬ s.Ended n → s'.Ended n →
      ∃ above id root tasks cleanupFrames rest,
        s.stack = above ++ .wave id root tasks cleanupFrames :: rest ∧ waves above = [] ∧
          s.Joined root n
  final : ∀ {s' : Machine κ ν ε}, Relation.ReflTransGen (Step (fun _ => False)) s s' →
    ∀ {n : ℕ} {failure : Failure ε}, s.observed n = some failure →
      s'.observed n = some failure

/-- The waves of the stack: what waits below the root of one waits on it or above it. -/
def WavesCover (s : Machine κ ν ε) : Prop :=
  ∀ ⦃above : List (Frame ε)⦄ ⦃id root : ℕ⦄ ⦃tasks : List (Task ε)⦄
    ⦃cleanupFrames : List (ℕ × List Cleanup)⦄ ⦃rest : List (Frame ε)⦄,
      s.stack = above ++ .wave id root tasks cleanupFrames :: rest →
        ((∃ failure ending, .own root failure ending ∈ tasks) ∨ s.Ended root) ∧
          s.Covers (above ++ [.wave id root tasks cleanupFrames]) (s.Below root)

/-- A stack with a wave has waves. -/
theorem waves_ne_nil {above : List (Frame ε)} {id root : ℕ} {tasks : List (Task ε)}
    {cleanupFrames : List (ℕ × List Cleanup)} {rest : List (Frame ε)} :
  waves (above ++ .wave id root tasks cleanupFrames :: rest) ≠ []
  := by
  rw [waves, List.filterMap_append]
  intro h
  have hnil := (List.append_eq_nil_iff.1 h).2
  cases hnil

/-- Every clean step keeps it so. -/
theorem CleanStep.wavesCover {s s' : Machine κ ν ε} (h : s.Sound) (hrecorded : s.Recorded)
    (hattached : s.Attached) (hcover : s.WavesCover) (hstep : CleanStep s s') :
  s'.WavesCover
  := by
  have hextends := (hstep.1.evolves h.grounded).extends_
  obtain ⟨-, t, t', rest₀, hstack, hstack', htop, hcarries⟩ :=
    hstep.1.works False.elim h hrecorded hattached
  -- what is below a root now was below it before, if it existed
  have hback : ∀ {seg : List (Frame ε)} {root : ℕ}, s.Covers seg (s.Below root) →
      s.Covers seg (s'.Below root) := by
    intro seg root hseg n cell p hn hcell
    exact hseg (hextends.below_back h.grounded hcell hn) hcell
  -- a wave below the part on which the step works
  have hbelow : ∀ {a : List (Frame ε)} {id root : ℕ} {tasks : List (Task ε)}
      {cleanupFrames : List (ℕ × List Cleanup)} {rest : List (Frame ε)},
      rest₀ = a ++ .wave id root tasks cleanupFrames :: rest →
        ((∃ failure ending, .own root failure ending ∈ tasks) ∨ s'.Ended root) ∧
          s'.Covers ((t' ++ a) ++ [.wave id root tasks cleanupFrames]) (s'.Below root) := by
    intro a id root tasks cleanupFrames rest ha
    rw [ha, ← List.append_assoc] at hstack
    obtain ⟨hown, hcovers⟩ := hcover hstack
    refine ⟨hown.imp_right hextends.ended, ?_⟩
    rw [List.append_assoc] at hcovers ⊢
    exact hcarries _ _ (hback hcovers)
  intro above id root tasks cleanupFrames rest hsplit
  rw [hstack'] at hsplit
  obtain ⟨a, rfl, ha⟩ | ⟨c, ht', hc⟩ := List.append_eq_append_iff.1 hsplit
  · exact hbelow ha
  · cases c with
    | nil =>
        rw [List.append_nil] at ht'
        have hresult := hbelow (a := []) hc.symm
        rw [List.append_nil, ht'] at hresult
        exact hresult
    | cons frame c =>
        obtain ⟨rfl, rfl⟩ := List.cons.inj hc
        cases htop with
        | none hno =>
            rw [ht'] at hno
            exact (waves_ne_nil hno).elim
        | @works id' root' y y' hno tasks' tasks'' cleanupFrames' cleanupFrames'' hdone =>
            -- the only wave of the new top is the last of its frames
            obtain ⟨a, rfl, ha⟩ | ⟨a, hy', ha⟩ := List.append_eq_append_iff.1 ht'
            · cases a with
              | nil =>
                  obtain ⟨heq, rfl⟩ := List.cons.inj ha
                  cases heq
                  rw [List.append_nil]
                  rw [List.append_assoc] at hstack
                  obtain ⟨hown, hcovers⟩ := hcover hstack
                  constructor
                  · obtain ⟨failure, ending, hown⟩ | hended := hown
                    · exact (hdone _ _ _ hown).imp_left (fun hmem => ⟨failure, ending, hmem⟩)
                    · exact .inr (hextends.ended hended)
                  · have hbefore := hback hcovers
                    rw [← List.append_nil (y ++ _)] at hbefore
                    have hresult := hcarries [] _ hbefore
                    rw [List.append_nil] at hresult
                    exact hresult
              | cons frame a =>
                  cases (List.append_eq_nil_iff.1 (List.cons.inj ha).2.symm).2
            · cases a with
              | nil =>
                  rw [List.append_nil] at hy'
                  subst hy'
                  obtain ⟨heq, rfl⟩ := List.cons.inj ha
                  cases heq
                  rw [List.append_assoc] at hstack
                  obtain ⟨hown, hcovers⟩ := hcover hstack
                  constructor
                  · obtain ⟨failure, ending, hown⟩ | hended := hown
                    · exact (hdone _ _ _ hown).imp_left (fun hmem => ⟨failure, ending, hmem⟩)
                    · exact .inr (hextends.ended hended)
                  · have hbefore := hback hcovers
                    rw [← List.append_nil (y ++ _)] at hbefore
                    have hresult := hcarries [] _ hbefore
                    rw [List.append_nil] at hresult
                    exact hresult
              | cons frame a =>
                  obtain ⟨rfl, -⟩ := List.cons.inj ha
                  rw [hy'] at hno
                  exact (waves_ne_nil hno).elim
        | @starts root' task htask =>
            cases above with
            | cons frame above =>
                cases (List.append_eq_nil_iff.1 (List.cons.inj ht').2.symm).2
            | nil =>
                obtain ⟨heq, rfl⟩ := List.cons.inj ht'
                cases heq
                have hclean : s.Clean root := by
                  apply hstep.2 root task
                  rw [hstack', hstack]
                  rfl
                constructor
                · obtain ⟨failure, ending, rfl⟩ | hfalse := htask
                  · exact .inl ⟨failure, ending, List.mem_cons_self⟩
                  · exact hfalse.elim
                · apply hcarries []
                  apply hback
                  intro n cell p hn hcell hlive hdone hp
                  exact (hclean n hn ⟨cell, p, hcell, hlive, hdone, hp⟩).elim

/-- In runs of clean steps the waves cover what waits below their roots. -/
theorem clean_run {s : Machine κ ν ε} (h : Relation.ReflTransGen CleanStep initial s) :
  Reachable (fun s => ¬ s.InWave) s ∧ s.WavesCover
  := by
  induction h with
  | refl =>
      refine ⟨.refl, ?_⟩
      intro above id root tasks cleanupFrames rest hsplit
      have hno : waves (initial : Machine κ ν ε).stack = [] := rfl
      rw [hsplit] at hno
      exact (waves_ne_nil hno).elim
  | tail _ hstep ih =>
      obtain ⟨hrun, hcover⟩ := ih
      exact ⟨hrun.tail (hstep.1.imp (fun hfalse _ => hfalse.elim)),
        hstep.wavesCover hrun.sound hrun.recorded hrun.attached.1 hcover⟩

/-- What a step ends belongs to the subtree of the wave that runs. -/
theorem Sound.outside {s s' : Machine κ ν ε} (h : s.Sound) {n : ℕ}
    (hstep : Step (fun _ => False) s s') {cell : Cell κ ν ε} (hcell : s.cells n = some cell)
    (hlive : ¬ s.Ended n) (hended : s'.Ended n) :
  ∃ above id root tasks cleanupFrames rest,
    s.stack = above ++ .wave id root tasks cleanupFrames :: rest ∧ waves above = [] ∧
      s.Joined root n
  := by
  have hsound := h.stack
  have hquiet : ∀ {s' : Machine κ ν ε}, Quiet s s' → s'.Ended n → False :=
    fun hquiet => hquiet.not_ended hcell hlive
  cases hstep with
  | withCancel _ methods foreignAborted parent hparent =>
      exact (hquiet (quiet_newCancelContext h.grounded _ _ _ _) hended).elim
  | withDeadline _ methods foreignAborted parent hparent requestedEpoch cause start =>
      exact (hquiet (quiet_newTimedContext h.grounded _ _ _ _ _ _) hended).elim
  | addCleanup _ node callback => exact (hquiet (quiet_addCleanup _ _ _) hended).elim
  | addListener _ node callback | stopsTimer _ =>
      apply (hquiet _ hended).elim
      apply Quiet.adjust
      intro cell
      rfl
  | cancelFunc _ node cause hnode => exact (hquiet (quiet_cancel _ _ _ _) hended).elim
  | deadline _ node hcell htimer hrequested =>
      exact (hquiet (quiet_cancel _ _ _ _) hended).elim
  | foreignAborts _ haborts node hcell hparent => exact haborts.elim
  | listenerEnds | cleanupEnds | parentThrows | readsParent | callsRaw | dispatched | runsWork
  | cleanupsEnd | waveEnds => exact (hlive hended).elim
  | @parentRead node rest hstack methods cell' hcell' =>
      have heq := settle_ended_eq (s := { s with stack := rest }) hlive hended
      subst heq
      rw [hstack] at hsound
      obtain ⟨hreading, -⟩ := hsound
      cases rest with
      | nil => cases hreading
      | cons frame rest =>
          cases frame with
          | code | dispatch => cases hreading
          | wave id root tasks cleanupFrames =>
              obtain ⟨-, rfl, -⟩ := hreading
              exact ⟨[.code (.reading n)], id, n, tasks, cleanupFrames, rest, hstack, rfl, .inl rfl⟩
  | @takesOwn id root node failure ending tasks cleanupFrames rest hstack =>
      have heq := settle_ended_eq
        (s := { s with stack := .wave id root tasks cleanupFrames :: rest }) hlive hended
      subst heq
      rw [hstack] at hsound
      exact ⟨[], id, root, _, cleanupFrames, rest, hstack, rfl,
        .inl (WaveSound.sound hsound.1 _ List.mem_cons_self)⟩
  | @takesChild id root node tasks cleanupFrames rest hstack cell' hcell' parentNode hparent
      methods =>
      have heq := settle_ended_eq
        (s := { s with stack := .wave id root tasks cleanupFrames :: rest }) hlive hended
      subst heq
      rw [hstack] at hsound
      refine ⟨[], id, root, _, cleanupFrames, rest, hstack, rfl, ?_⟩
      obtain ⟨rfl, -⟩ | ⟨p, hlink, hp⟩ := WaveSound.sound hsound.1 _ List.mem_cons_self
      · exact .inl rfl
      · right
        obtain rfl | hjoined := hp.joined
        · exact .single hlink
        · exact .head hlink hjoined
  | callsChild _ =>
      apply (hquiet _ hended).elim
      exact fun _ _ hm => quiet_cancelFromParent _ _ hm
  | stopsParent _ =>
      apply (hquiet _ hended).elim
      apply Quiet.adjust
      intro cell
      rw [Cell.stopParent]
      split
      · rfl
      · rfl

/-- Where every cancellation starts when nothing below its context waits, the subtree has ended
when it returns. -/
theorem cancellation_reaches {s : Machine κ ν ε}
    (h : Relation.ReflTransGen CleanStep initial s) :
  s.Cancelled
  := by
  obtain ⟨hrun, hcover⟩ := clean_run h
  constructor
  case subtree =>
    intro id root rest hstack
    obtain ⟨hown, hcovers⟩ := @hcover [] _ _ _ _ _ hstack
    have hroot : s.Ended root := by
      obtain ⟨failure, ending, hmem⟩ | hended := hown
      · cases hmem
      · exact hended
    refine ⟨hroot, ?_⟩
    have hchild : ∀ {n p : ℕ}, s.Below root n → s.link n = some (.node p) → s.Ended p →
        s.Ended n := by
      intro n p hn hlink hp
      obtain ⟨cell, hcell, hdone⟩ := Option.bind_eq_some_iff.1 hlink
      cases hobserved : cell.observed with
      | some failure => exact ⟨failure, by rw [observed, hcell, Option.bind_some, hobserved]⟩
      | none =>
          obtain ⟨-, listeners, pending, hmem, -⟩ | ⟨id', root', tasks, cleanupFrames, hmem, htask⟩ :=
            hcovers hn hcell hobserved hdone hp
          · cases List.mem_singleton.1 hmem
          · cases List.mem_singleton.1 hmem
            cases htask
    intro n hn
    induction hn using Relation.TransGen.head_induction_on with
    | single hlink => exact hchild (.single hlink) hlink hroot
    | head hlink hbelow ih => exact hchild (.head hlink hbelow) hlink ih
  case outside =>
    rintro s' n hstep ⟨cell, hcell⟩ hlive hended
    exact hrun.sound.outside hstep hcell hlive hended
  case final =>
    intro s' hrun' n failure hobserved
    exact (Run.evolves hrun.grounded hrun').extends_.observed hobserved

end

/-- A context is cancelled that has a child. -/
theorem cancellation_reaches_child :
  ∃ s : Machine Unit Unit Unit, Relation.ReflTransGen CleanStep initial s ∧ s.Cancelled ∧
    s.observed 1 = some ⟨.canceled, .context .canceled⟩
  := by
  have h : Relation.ReflTransGen CleanStep (initial : Machine Unit Unit Unit) initial := .refl
  have h := h.tail ⟨.withCancel rfl quiet false .background trivial, by rintro root task ⟨⟩⟩
  have h := h.tail ⟨.withCancel rfl quiet false (.cancel 0 .background none)
    ⟨⟨_, rfl, rfl, rfl⟩, trivial⟩, by rintro root task ⟨⟩⟩
  have h := h.tail ⟨.cancelFunc rfl 0 (.context .canceled) (by rintro ⟨⟩), by
    rintro root task - n - ⟨cell, p, -, -, -, failure, hp⟩
    obtain _ | _ | p := p
    · cases hp
    · cases hp
    · cases hp⟩
  have h := h.tail ⟨.takesOwn rfl, by rintro root task ⟨⟩⟩
  have h := h.tail ⟨.callsChild rfl, by rintro root task ⟨⟩⟩
  have h := h.tail ⟨.dispatched rfl, by rintro root task ⟨⟩⟩
  have h := h.tail ⟨.takesChild rfl rfl rfl quiet, by rintro root task ⟨⟩⟩
  exact ⟨_, h, cancellation_reaches h, rfl⟩

/-- A listener of a context that is being cancelled cancels the parent of the context, when a child
of the context is still queued. The inner cancellation returns before the child has ended. -/
theorem nestedCancellation_returns :
  ¬ ∀ s : Machine Unit Unit Unit, Reachable (fun _ => False) s → s.Cancelled
  := by
  intro hall
  have h : Reachable (fun _ => False) (initial : Machine Unit Unit Unit) := .refl
  have h := h.tail (.withCancel rfl quiet false .background trivial)
  have h := h.tail
    (.withCancel rfl quiet false (.cancel 0 .background none) ⟨⟨_, rfl, rfl, rfl⟩, trivial⟩)
  have h := h.tail (.withCancel rfl quiet false (.cancel 1 (.cancel 0 .background none) none)
    ⟨⟨_, rfl, rfl, rfl⟩, ⟨_, rfl, rfl, rfl⟩, trivial⟩)
  have h := h.tail (.addListener rfl 1 7)
  have h := h.tail (.cancelFunc rfl 1 (.context .canceled) (by rintro ⟨⟩))
  have h := h.tail (.takesOwn rfl)
  have h := h.tail (.callsChild rfl)
  have h := h.tail (.callsRaw rfl)
  have h := h.tail (.cancelFunc rfl 0 (.context .canceled) (by rintro ⟨⟩))
  have h := h.tail (.takesOwn rfl)
  have h := h.tail (.callsChild rfl)
  have h := h.tail (.dispatched rfl)
  have h := h.tail (.takesChild rfl rfl rfl quiet)
  have hbelow : ∀ {s : Machine Unit Unit Unit}, s.link 2 = some (.node 1) →
      s.link 1 = some (.node 0) → s.Below 0 2 :=
    fun h₂ h₁ => .head h₂ (.single h₁)
  obtain ⟨failure, hended⟩ := ((hall _ h).subtree rfl).2 (hbelow rfl rfl)
  cases hended

end Machine

end ContextTree
