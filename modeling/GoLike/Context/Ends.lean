import GoLike.Context.Descendants

/-!
# How contexts end

The deadline of a chain of contexts of this package is the least that was asked for. What ends a
context first decides what it records for ever: its own cause at its own deadline, and at the
end of an ancestor the error and the cause of that ancestor.
-/

namespace ContextTree

namespace Machine

variable {κ ν ε : Type}

/-- The signal of a context of this package is not that of another one. -/
theorem builtIn_resolveDone {ctx : Context κ ν} (h : ctx.BuiltIn) (id : ℕ) :
  ctx.resolveDone ≠ some (.foreign id)
  := by
  induction ctx with
  | background | withoutCancel | cancel => rintro ⟨⟩
  | foreign id => exact h.elim
  | value parent key storedValue ih => exact ih h

/-- Above the node of a context of this package are contexts of this package. -/
theorem Knows.builtIn_parent {s : Machine κ ν ε} {ctx : Context κ ν} (h : s.Knows ctx)
    (hbuiltIn : ctx.BuiltIn) {p : ℕ} (hdone : ctx.resolveDone = some (.node p))
    {cell : Cell κ ν ε} (hcell : s.cells p = some cell) :
  cell.parent.BuiltIn
  := by
  induction ctx with
  | background | foreign | withoutCancel => cases hdone
  | value parent key storedValue ih => exact ih h hbuiltIn hdone
  | cancel node parent deadlineEpoch ih =>
      cases hdone
      obtain ⟨⟨cell', hcell', hparent, -⟩, -⟩ := h
      obtain rfl := Option.some.inj (hcell.symm.trans hcell')
      rw [hparent]
      exact hbuiltIn

/-- A context that was ended by the end of its parent has the record of an ancestor that was not,
if its ancestors are contexts of this package. -/
theorem Recorded.origin {s : Machine κ ν ε} (h : s.Recorded) {n : ℕ} {cell : Cell κ ν ε}
    (hcell : s.cells n = some cell) (hbuiltIn : cell.parent.BuiltIn) {failure : Failure ε}
    (hobserved : cell.observed = some failure) (hending : cell.endedBy = some .parentEnd) :
  ∃ a ∈ s.ancestors n, ∃ cell', s.cells a = some cell' ∧ cell'.observed = some failure ∧
    cell'.endedBy ≠ some .parentEnd
  := by
  -- the ancestors are older, and the record is that of the nearest one
  induction n using Nat.strong_induction_on generalizing cell with
  | h n ih =>
      obtain ⟨ending, hending', hrecord⟩ := (h.cells hcell).record failure hobserved
      rw [hending] at hending'
      cases hending'
      obtain ⟨id, hforeign⟩ | ⟨p, hdone, hp⟩ := hrecord
      · exact (builtIn_resolveDone hbuiltIn id hforeign).elim
      · have hancestors : s.ancestors n = p :: s.ancestors p := by
          apply h.grounded.ancestors_eq
          rw [link, hcell, Option.bind_some, hdone]
        obtain ⟨pcell, hpcell, hpobserved⟩ := Option.bind_eq_some_iff.1 hp
        by_cases hpending : pcell.endedBy = some .parentEnd
        · have hlt : p < n := h.grounded.below (hancestors ▸ List.mem_cons_self)
          have hpbuiltIn := (h.grounded.known hcell).builtIn_parent hbuiltIn hdone hpcell
          obtain ⟨a, ha, hcell'⟩ := ih p hlt hpcell hpbuiltIn hpobserved hpending
          rw [hancestors]
          exact ⟨a, List.mem_cons_of_mem p ha, hcell'⟩
        · rw [hancestors]
          exact ⟨p, List.mem_cons_self, pcell, hpcell, hpobserved, hpending⟩

section

variable [DecidableEq κ]

/-- In a tree of contexts of this package only, no signal of another context is aborted. -/
theorem Step.of_builtIn {aborts aborts' : Machine κ ν ε → Prop} {s s' : Machine κ ν ε}
    (hs : Grounded s)
    (hbuiltIn : ∀ {n : ℕ} {cell : Cell κ ν ε}, s'.cells n = some cell → cell.parent.BuiltIn)
    (hstep : Step aborts s s') :
  Step aborts' s s'
  := by
  apply hstep.imp
  rintro - ⟨n, cell, id, hcell, hparent⟩
  obtain ⟨cell', hcell', hgrows⟩ := (hstep.evolves hs).extends_.cells hcell
  have hparentBuiltIn := hbuiltIn hcell'
  rw [hgrows.parent] at hparentBuiltIn
  exact (builtIn_resolveDone hparentBuiltIn id hparent).elim

/-- A tree of contexts of this package only is reached without those steps. -/
theorem Reachable.of_builtIn {aborts aborts' : Machine κ ν ε → Prop} {s : Machine κ ν ε}
    (h : Reachable aborts s)
    (hbuiltIn : ∀ {n : ℕ} {cell : Cell κ ν ε}, s.cells n = some cell → cell.parent.BuiltIn) :
  Reachable aborts' s
  := by
  induction h with
  | refl => exact .refl
  | tail hrun hstep ih =>
      have hgrounded := Reachable.grounded hrun
      apply Relation.ReflTransGen.tail _ (hstep.of_builtIn hgrounded hbuiltIn)
      apply ih
      intro n cell hcell
      obtain ⟨cell', hcell', hgrows⟩ := (hstep.evolves hgrounded).extends_.cells hcell
      rw [← hgrows.parent]
      exact hbuiltIn hcell'

/-- What the deadlines and the records of the contexts have to be. -/
structure Effective (s : Machine κ ν ε) : Prop where
  /-- The deadline is the least of those up to the nearest context that hides cancellation. -/
  deadline : ∀ (methods : ForeignMethods κ ν ε) {ctx : Context κ ν}, s.Knows ctx → ctx.BuiltIn →
    ctx.resolveDeadline methods = (s.deadlines ctx).min?
  /-- One of three things has ended a context that has ended. -/
  ended : ∀ {n : ℕ} {cell : Cell κ ν ε} {failure : Failure ε}, s.cells n = some cell →
    cell.observed = some failure → ∃ ending, cell.endedBy = some ending
  ownDeadline : ∀ {n : ℕ} {cell : Cell κ ν ε} {failure : Failure ε}, s.cells n = some cell →
    cell.observed = some failure → cell.endedBy = some .ownDeadline →
      ∃ epoch cause, cell.requested = some (epoch, cause) ∧ cell.deadlineEpoch = some epoch ∧
        failure = ⟨.deadlineExceeded, cause⟩
  cancelFunc : ∀ {n : ℕ} {cell : Cell κ ν ε} {failure : Failure ε}, s.cells n = some cell →
    cell.observed = some failure → cell.endedBy = some .cancelFunc → failure.err = .canceled
  /-- What has ended an ancestor of its own has ended the context. -/
  parentEnd : ∀ {n : ℕ} {cell : Cell κ ν ε} {failure : Failure ε}, s.cells n = some cell →
    cell.parent.BuiltIn → cell.observed = some failure → cell.endedBy = some .parentEnd →
      ∃ a ∈ s.ancestors n, ∃ cell', s.cells a = some cell' ∧ cell'.observed = some failure ∧
        cell'.endedBy ≠ some .parentEnd
  final : ∀ {s' : Machine κ ν ε}, Relation.ReflTransGen (Step (fun _ => True)) s s' →
    ∀ {n : ℕ} {cell : Cell κ ν ε} {failure : Failure ε}, s.cells n = some cell →
      cell.observed = some failure → ∃ cell', s'.cells n = some cell' ∧
        cell'.observed = some failure ∧ cell'.endedBy = cell.endedBy
  /-- The end of the parent comes before whatever happens to the context when no wave runs. -/
  first : (∀ {n : ℕ} {cell : Cell κ ν ε}, s.cells n = some cell → cell.parent.BuiltIn) →
    ¬ s.InWave → ∀ {n p : ℕ}, s.link n = some (.node p) → s.Ended p → s.Ended n

/-- Every run, with timers and cancellations in any order, leaves the deadlines and the records
of the contexts right. -/
theorem effective_deadline {s : Machine κ ν ε} (h : Reachable (fun _ => True) s) :
  s.Effective
  := by
  have hrecorded := h.recorded
  have hrecord : ∀ {n : ℕ} {cell : Cell κ ν ε} {failure : Failure ε} {ending : Ending},
      s.cells n = some cell → cell.observed = some failure → cell.endedBy = some ending →
        s.RecordedBy cell failure ending := by
    intro n cell failure ending hcell hobserved hending
    obtain ⟨ending', hending', hrecord⟩ := (hrecorded.cells hcell).record failure hobserved
    rw [hending] at hending'
    cases hending'
    exact hrecord
  constructor
  case deadline =>
    intro methods ctx hctx hbuiltIn
    exact resolveDeadline_eq_min (fun hcell => (hrecorded.cells hcell).chosen) methods hctx hbuiltIn
  case ended =>
    intro n cell failure hcell hobserved
    obtain ⟨ending, hending, -⟩ := (hrecorded.cells hcell).record failure hobserved
    exact ⟨ending, hending⟩
  case ownDeadline => exact fun hcell hobserved hending => hrecord hcell hobserved hending
  case cancelFunc => exact fun hcell hobserved hending => hrecord hcell hobserved hending
  case parentEnd =>
    exact fun hcell hbuiltIn hobserved hending =>
      hrecorded.origin hcell hbuiltIn hobserved hending
  case final =>
    intro s' hrun n cell failure hcell hobserved
    obtain ⟨cell', hcell', hgrows⟩ := (Run.evolves h.grounded hrun).extends_.cells hcell
    exact ⟨cell', hcell', (hgrows.observed hobserved).1, (hgrows.observed hobserved).2.1⟩
  case first =>
    intro hbuiltIn hidle n p hlink hp
    exact (h.of_builtIn hbuiltIn).ended_of_link hidle hlink hp

end

/-- A context with a deadline, one below it that asks for a later one, and a third below that one
with an earlier one. The timer of the third fires, and then that of the first. -/
theorem effective_deadline_chain :
  ∃ s : Machine Unit Unit ℕ, Reachable (fun _ => True) s ∧ s.Effective ∧
    s.observed 2 = some ⟨.deadlineExceeded, .other 2⟩ ∧
      s.observed 1 = some ⟨.deadlineExceeded, .other 0⟩
  := by
  have h : Reachable (fun _ => True) (initial : Machine Unit Unit ℕ) := .refl
  have h := h.tail (.withDeadline rfl quiet false .background trivial 5 (.other 0) .armed)
  have h := h.tail (.withDeadline rfl quiet false (.cancel 0 .background (some 5))
    ⟨⟨_, rfl, rfl, rfl⟩, trivial⟩ 7 (.other 1) .armed)
  have h := h.tail (.withDeadline rfl quiet false (.cancel 1 (.cancel 0 .background (some 5)) none)
    ⟨⟨_, rfl, rfl, rfl⟩, ⟨_, rfl, rfl, rfl⟩, trivial⟩ 3 (.other 2) .armed)
  have h := h.tail (.deadline rfl 2 rfl rfl rfl)
  have h := h.tail (.takesOwn rfl)
  have h := h.tail (.dispatched rfl)
  have h := h.tail (.stopsParent rfl)
  have h := h.tail (.stopsTimer rfl)
  have h := h.tail (.cleanupsEnd rfl)
  have h := h.tail (.waveEnds rfl)
  have h := h.tail (.deadline rfl 0 rfl rfl rfl)
  have h := h.tail (.takesOwn rfl)
  have h := h.tail (.callsChild rfl)
  have h := h.tail (.dispatched rfl)
  have h := h.tail (.takesChild rfl rfl rfl quiet)
  exact ⟨_, h, effective_deadline h, rfl, rfl⟩

end Machine

end ContextTree
