import GoLike.Registry.Mdns.SnapshotQueue

/-!
# The moves of a snapshot queue

Every step of a queue is one of the moves below, which say what the step changes and under which
conditions it is taken.
-/

namespace Registry.Mdns.SnapshotQueue

variable {α ε : Type} (o : Options ε)

/-- What a step changes. -/
inductive Move (s : Queue α ε) : Act α ε → Queue α ε → Prop
  /-- A delivery that has failed ends its operation. -/
  | undelivered {value : α} {operation : Operation} {below : List (Frame α ε)}
      (hstack : s.stack = .undelivered value operation :: below)
      (hends : operation = .push → (s.ownerError o).isSome = true) :
      Move s .run { s with stack := .returning :: below }
  /-- A delivery that has failed goes on with the next waiter. -/
  | retried {value : α} {below : List (Frame α ε)}
      (hstack : s.stack = .undelivered value .push :: below) (howner : s.ownerError o = none) :
      Move s .run { s with stack := .pushing value :: below }
  | overflowed {value : α} {below : List (Frame α ε)} (hstack : s.stack = .pushing value :: below)
      (hwaiters : s.waiters = []) (hfull : o.bufferSize ≤ s.values.length) :
      Move s .run { s with
        failure := some o.overflowError, state := .failed, values := [],
        stack := .returning :: below, events := .terminal o.overflowError :: s.events }
  | queued {value : α} {below : List (Frame α ε)} (hstack : s.stack = .pushing value :: below)
      (hwaiters : s.waiters = []) (hroom : s.values.length < o.bufferSize) :
      Move s .run { s with values := s.values ++ [value], stack := .returning :: below }
  /-- A waiter that is settled is passed over. -/
  | passed {value : α} {call : ℕ} {rest : List ℕ} {below : List (Frame α ε)}
      (hstack : s.stack = .pushing value :: below) (hwaiters : s.waiters = call :: rest)
      (hstate : s.waiterStates call ≠ some .waiting) :
      Move s .run { s with waiters := rest, stack := .undelivered value .push :: below }
  /-- A value is handed to the first waiter. -/
  | handed {value : α} {call : ℕ} {rest : List ℕ} {below : List (Frame α ε)}
      (hstack : s.stack = .pushing value :: below) (hwaiters : s.waiters = call :: rest)
      (hstate : s.waiterStates call = some .waiting) :
      Move s .run { s with
        waiters := rest, waiterStates := Function.update s.waiterStates call (some .claiming),
        stack := .delivering call value .push :: below }
  | returned {below : List (Frame α ε)} (hstack : s.stack = .returning :: below)
      (hguard : s.state = .running ∨ s.terminalPublished = true ∨ s.publishingTerminal = true ∨
        s.activeOperations - 1 ≠ 0) :
      Move s .run { s with activeOperations := s.activeOperations - 1, stack := below }
  /-- The last operation begins to publish the end. -/
  | publishes {below : List (Frame α ε)} {error : ε} (hstack : s.stack = .returning :: below)
      (hstate : s.state ≠ .running) (hunpublished : s.terminalPublished = false)
      (hidle : s.publishingTerminal = false) (hlast : s.activeOperations - 1 = 0) :
      Move s .run { s with
        activeOperations := s.activeOperations - 1, publishingTerminal := true, waiters := [],
        stack := .rejectingAll error s.ownedWaiters :: below }
  | published {error : ε} {below : List (Frame α ε)}
      (hstack : s.stack = .rejectingAll error [] :: below) :
      Move s .run { s with
        terminalPublished := true, publishingTerminal := false, stack := below,
        events := .published :: s.events }
  | skipped {error : ε} {call : ℕ} {rest : List ℕ} {below : List (Frame α ε)}
      (hstack : s.stack = .rejectingAll error (call :: rest) :: below)
      (hstate : s.waiterStates call ≠ some .waiting) :
      Move s .run { s with stack := .rejectingAll error rest :: below }
  | rejects {error : ε} {call : ℕ} {rest : List ℕ} {below : List (Frame α ε)}
      (hstack : s.stack = .rejectingAll error (call :: rest) :: below)
      (hstate : s.waiterStates call = some .waiting) :
      Move s .run { s with
        waiterStates := Function.update s.waiterStates call (some .claiming),
        stack := .rejecting call error :: .rejectingAll error rest :: below }
  /-- A call of `next` on a queue that has ended. -/
  | refused {error : ε} (houtside : s.isOutside = true) (howner : s.ownerError o = some error) :
      Move s .next { s with
        calls := s.calls + 1, activeOperations := s.activeOperations + 1,
        stack := .returning :: s.stack,
        events := .rejected s.calls error :: .called s.calls :: s.events }
  | entered (houtside : s.isOutside = true) (howner : s.ownerError o = none) :
      Move s .next { s with
        calls := s.calls + 1, activeOperations := s.activeOperations + 1,
        stack := .entering s.calls :: s.stack, events := .called s.calls :: s.events }
  /-- A call of `push` on a queue that has ended, or without a snapshot. -/
  | unpushed {snapshot : Option α} (houtside : s.isOutside = true) :
      Move s (.push snapshot) { s with
        activeOperations := s.activeOperations + 1, stack := .returning :: s.stack }
  | pushed {value : α} (houtside : s.isOutside = true) (howner : s.ownerError o = none) :
      Move s (.push (some value)) { s with
        activeOperations := s.activeOperations + 1, stack := .pushing value :: s.stack,
        events := .pushed value :: s.events }
  /-- The queue ends in the middle of other operations. -/
  | ended {act : Act α ε} {state : OwnerState} {failure : Option ε} {error : ε}
      (houtside : s.isOutside = true) (howner : s.ownerError o = none) (hstate : state ≠ .running)
      (hfailure : failure.isSome = true ↔ state = .failed)
      (herror : failure.getD o.stoppedError = error)
      (hguard : s.terminalPublished = true ∨ s.publishingTerminal = true ∨ s.activeOperations ≠ 0) :
      Move s act { s with
        state := state, failure := failure, values := [], events := .terminal error :: s.events }
  /-- The queue ends and begins to publish it. -/
  | endedAtOnce {act : Act α ε} {state : OwnerState} {failure : Option ε} {error : ε}
      (houtside : s.isOutside = true) (howner : s.ownerError o = none) (hstate : state ≠ .running)
      (hfailure : failure.isSome = true ↔ state = .failed)
      (herror : failure.getD o.stoppedError = error) (hunpublished : s.terminalPublished = false)
      (hidle : s.publishingTerminal = false) (hlast : s.activeOperations = 0) :
      Move s act { s with
        state := state, failure := failure, values := [], publishingTerminal := true, waiters := [],
        stack := .rejectingAll error s.ownedWaiters :: s.stack,
        events := .terminal error :: s.events }
  | ignored {act : Act α ε} : Move s act s
  | uncanceled {act : Act α ε} (houtside : s.isOutside = true) :
      Move s act { s with
        activeOperations := s.activeOperations + 1, stack := .returning :: s.stack }
  | canceled {act : Act α ε} {call : ℕ} (houtside : s.isOutside = true)
      (hstate : s.waiterStates call = some .waiting) :
      Move s act { s with
        activeOperations := s.activeOperations + 1, waiters := s.waiters.erase call,
        stack := .canceling call :: s.stack }
  /-- A call of `next` is rejected before it has a waiter. -/
  | unadmitted {act : Act α ε} {frame : Frame α ε} {call : ℕ} {error : ε} {below : List (Frame α ε)}
      (hstack : s.stack = frame :: below) (hframe : frame = .entering call ∨ frame = .registering call)
      (howner : ∀ ended, s.ownerError o = some ended → error = ended) :
      Move s act { s with
        stack := .returning :: below, events := .rejected call error :: s.events }
  | inspected {act : Act α ε} {call : ℕ} {below : List (Frame α ε)}
      (hstack : s.stack = .entering call :: below) (howner : s.ownerError o = none) :
      Move s act { s with stack := .registering call :: below }
  /-- A waiter that is there too late waits for the end to be published. -/
  | late {act : Act α ε} {call : ℕ} {below : List (Frame α ε)}
      (hstack : s.stack = .registering call :: below) (howner : (s.ownerError o).isSome = true) :
      Move s act { s with
        waiterStates := Function.update s.waiterStates call (some .waiting),
        ownedWaiters := s.ownedWaiters ++ [call], stack := .returning :: below }
  /-- A waiter claims the first value. -/
  | claims {act : Act α ε} {call : ℕ} {value : α} {values : List α} {below : List (Frame α ε)}
      (hstack : s.stack = .registering call :: below) (howner : s.ownerError o = none)
      (hvalues : s.values = value :: values) :
      Move s act { s with
        waiterStates := Function.update s.waiterStates call (some .claiming),
        ownedWaiters := s.ownedWaiters ++ [call], stack := .delivering call value .next :: below }
  | parked {act : Act α ε} {call : ℕ} {below : List (Frame α ε)}
      (hstack : s.stack = .registering call :: below) (howner : s.ownerError o = none)
      (hvalues : s.values = []) :
      Move s act { s with
        waiterStates := Function.update s.waiterStates call (some .waiting),
        ownedWaiters := s.ownedWaiters ++ [call], waiters := s.waiters ++ [call],
        stack := .returning :: below }
  /-- The cancellation of a waiter has won against a delivery. -/
  | outrun {act : Act α ε} {call : ℕ} {value : α} {operation : Operation} {below : List (Frame α ε)}
      (hstack : s.stack = .delivering call value operation :: below) :
      Move s act { s with
        waiterStates := Function.update s.waiterStates call (some .waiting),
        activeOperations := s.activeOperations + 1, waiters := s.waiters.erase call,
        stack := .canceling call :: .undelivered value operation :: below }
  /-- The end of the queue has won against a delivery. -/
  | overtaken {act : Act α ε} {call : ℕ} {value : α} {operation : Operation} {error : ε}
      {below : List (Frame α ε)} (hstack : s.stack = .delivering call value operation :: below)
      (howner : s.ownerError o = some error) :
      Move s act { s with
        waiterStates := Function.update s.waiterStates call (some .abandoned),
        ownedWaiters := s.ownedWaiters.filter (· ≠ call),
        stack := .undelivered value operation :: below,
        events := .rejected call error :: s.events }
  | taken {act : Act α ε} {call : ℕ} {value : α} {below : List (Frame α ε)}
      (hstack : s.stack = .delivering call value .next :: below) (howner : s.ownerError o = none) :
      Move s act { s with
        waiterStates := Function.update s.waiterStates call (some .delivered),
        ownedWaiters := s.ownedWaiters.filter (· ≠ call), values := s.values.tail,
        stack := .returning :: below, events := .resolved call value :: s.events }
  | given {act : Act α ε} {call : ℕ} {value : α} {below : List (Frame α ε)}
      (hstack : s.stack = .delivering call value .push :: below) (howner : s.ownerError o = none) :
      Move s act { s with
        waiterStates := Function.update s.waiterStates call (some .delivered),
        ownedWaiters := s.ownedWaiters.filter (· ≠ call), stack := .returning :: below,
        events := .resolved call value :: s.events }
  /-- The cancellation of a waiter has won against the end of the queue. -/
  | escaped {act : Act α ε} {call : ℕ} {error : ε} {below : List (Frame α ε)}
      (hstack : s.stack = .rejecting call error :: below) :
      Move s act { s with
        waiterStates := Function.update s.waiterStates call (some .waiting),
        activeOperations := s.activeOperations + 1, waiters := s.waiters.erase call,
        stack := .canceling call :: below }
  | rejected {act : Act α ε} {call : ℕ} {error : ε} {below : List (Frame α ε)}
      (hstack : s.stack = .rejecting call error :: below) :
      Move s act { s with
        waiterStates := Function.update s.waiterStates call (some .abandoned),
        ownedWaiters := s.ownedWaiters.filter (· ≠ call), stack := below,
        events := .rejected call error :: s.events }
  | abandoned {act : Act α ε} {call : ℕ} {error : ε} {below : List (Frame α ε)}
      (hstack : s.stack = .canceling call :: below)
      (hstate : s.waiterStates call = some .waiting) :
      Move s act { s with
        waiterStates := Function.update s.waiterStates call (some .abandoned),
        ownedWaiters := s.ownedWaiters.filter (· ≠ call), stack := .returning :: below,
        events := .rejected call error :: s.events }
  | settled {act : Act α ε} {call : ℕ} {below : List (Frame α ε)}
      (hstack : s.stack = .canceling call :: below)
      (hstate : s.waiterStates call ≠ some .waiting) :
      Move s act { s with stack := .returning :: below }

/-! ### Every step is a move -/

variable {o} {s s' : Queue α ε}

variable {act : Act α ε}

theorem move_publishTerminal {state : OwnerState} {failure : Option ε} {error : ε}
    (houtside : s.isOutside = true) (howner : s.ownerError o = none) (hstate : state ≠ .running)
    (hfailure : failure.isSome = true ↔ state = .failed)
    (herror : failure.getD o.stoppedError = error) :
  Move o s act (s.terminate o state failure error)
  := by
  unfold Queue.terminate Queue.publishTerminal Queue.log
  dsimp only
  split
  · rename_i hguard
    exact .ended houtside howner hstate hfailure herror (hguard.resolve_left hstate)
  · rename_i hguard
    push Not at hguard
    obtain ⟨-, hunpublished, hidle, hlast⟩ := hguard
    rw [herror]
    exact .endedAtOnce houtside howner hstate hfailure herror (Bool.eq_false_iff.2 hunpublished)
      (Bool.eq_false_iff.2 hidle) hlast

theorem move_canceledWaiter (call : ℕ) (houtside : s.isOutside = true) :
  Move o s act (s.canceledWaiter call)
  := by
  unfold Queue.canceledWaiter Queue.enter
  dsimp only
  split
  · exact .uncanceled houtside
  · rename_i hstate
    exact .canceled houtside (not_not.1 hstate)

variable {frame : Frame α ε} {below : List (Frame α ε)}

theorem move_turn (hstack : s.stack = frame :: below)
    (h : ({ s with stack := below } : Queue α ε).turn o frame = some s') :
  Move o s .run s'
  := by
  cases frame with
  | undelivered value operation =>
      cases operation with
      | next =>
          cases h
          exact .undelivered hstack (fun h => nomatch h)
      | push =>
          simp only [Queue.turn, Option.some.injEq] at h
          subst h
          split
          · rename_i howner
            exact .undelivered hstack (fun _ => howner)
          · rename_i howner
            exact .retried hstack (Option.not_isSome_iff_eq_none.1 howner)
  | pushing value =>
      simp only [Queue.turn, Option.some.injEq] at h
      subst h
      unfold Queue.pushNext
      dsimp only
      split
      · rename_i hwaiters
        split
        · rename_i hfull
          exact .overflowed hstack hwaiters hfull
        · rename_i hroom
          exact .queued hstack hwaiters (Nat.lt_of_not_le hroom)
      · rename_i call rest hwaiters
        unfold Queue.deliverWaiter Queue.setWaiter Queue.enter
        split
        · rename_i hstate
          exact .passed hstack hwaiters hstate
        · rename_i hstate
          exact .handed hstack hwaiters (not_not.1 hstate)
  | returning =>
      simp only [Queue.turn, Option.some.injEq] at h
      subst h
      unfold Queue.publishTerminal Queue.enter
      dsimp only
      split
      · rename_i hguard
        exact .returned hstack hguard
      · rename_i hguard
        push Not at hguard
        obtain ⟨hstate, hunpublished, hidle, hlast⟩ := hguard
        exact .publishes hstack hstate (Bool.eq_false_iff.2 hunpublished)
          (Bool.eq_false_iff.2 hidle) hlast
  | rejectingAll error rest =>
      simp only [Queue.turn, Option.some.injEq] at h
      subst h
      cases rest with
      | nil => exact .published hstack
      | cons call rest =>
          unfold Queue.rejectNext Queue.setWaiter Queue.enter
          dsimp only
          split
          · rename_i hstate
            exact .skipped hstack hstate
          · rename_i hstate
            exact .rejects hstack (not_not.1 hstate)
  | entering | registering | delivering | rejecting | canceling => cases h

variable {call : ℕ}

theorem move_claimed {value : α} {operation : Operation}
    (hstack : s.stack = .delivering call value operation :: below) :
  Move o s act (({ s with stack := below } : Queue α ε).claimed o call value operation)
  := by
  unfold Queue.claimed
  cases howner : s.ownerError o with
  | some error =>
      have howner' : ({ s with stack := below } : Queue α ε).ownerError o = some error := howner
      rw [howner']
      exact .overtaken hstack howner
  | none =>
      have howner' : ({ s with stack := below } : Queue α ε).ownerError o = none := howner
      rw [howner']
      cases operation with
      | next => exact .taken hstack howner
      | push => exact .given hstack howner

theorem move_abandonWaiter (hstack : s.stack = .canceling call :: below) (error : ε) :
  Move o s act ((({ s with stack := below } : Queue α ε).abandonWaiter call error).enter .returning)
  := by
  unfold Queue.abandonWaiter
  dsimp only
  split
  · rename_i hstate
    exact .settled hstack hstate
  · rename_i hstate
    exact .abandoned hstack (not_not.1 hstate)

theorem move_admitWaiter (hstack : s.stack = .registering call :: below) :
  Move o s act (({ s with stack := below } : Queue α ε).admitWaiter o call)
  := by
  unfold Queue.admitWaiter
  dsimp only
  split
  · rename_i howner
    exact .late hstack howner
  · rename_i howner
    have howner' : s.ownerError o = none := Option.not_isSome_iff_eq_none.1 howner
    split
    · rename_i value values hvalues
      have hwaiting : Function.update s.waiterStates call (some WaiterState.waiting) call =
          some .waiting := Function.update_self _ _ _
      unfold Queue.deliverWaiter Queue.setWaiter Queue.enter
      dsimp only
      have hclaiming : Function.update (Function.update s.waiterStates call (some .waiting)) call
          (some .claiming) = Function.update s.waiterStates call (some .claiming) :=
        Function.update_idem _ _ _
      rw [if_neg (not_not_intro hwaiting), hclaiming]
      exact .claims hstack howner' hvalues
    · rename_i hvalues
      exact .parked hstack howner' hvalues

theorem move_resume (hstack : s.stack = frame :: below) (hforeign : frame.isForeign = true)
    (value : Value ε) :
  Move o s act (({ s with stack := below } : Queue α ε).resume o value frame)
  := by
  cases frame with
  | entering call =>
      unfold Queue.resume
      cases howner : s.ownerError o with
      | some error =>
          have howner' : ({ s with stack := below } : Queue α ε).ownerError o = some error := howner
          rw [howner']
          apply Move.unadmitted hstack (.inl rfl)
          intro ended hended
          rw [howner, Option.some.injEq] at hended
          exact hended
      | none =>
          have howner' : ({ s with stack := below } : Queue α ε).ownerError o = none := howner
          rw [howner']
          cases hfailure : value.failure with
          | some error =>
              apply Move.unadmitted hstack (.inl rfl)
              intro ended hended
              rw [howner] at hended
              cases hended
          | none => exact .inspected hstack howner
  | registering call => exact move_admitWaiter hstack
  | delivering call snapshot operation =>
      unfold Queue.resume
      dsimp only
      split
      · exact move_claimed hstack
      · have hwaiting : Function.update s.waiterStates call (some WaiterState.waiting) call =
            some .waiting := Function.update_self _ _ _
        unfold Queue.canceledWaiter Queue.setWaiter Queue.enter
        dsimp only
        rw [if_neg (not_not_intro hwaiting)]
        exact .outrun hstack
  | rejecting call error =>
      unfold Queue.resume
      dsimp only
      split
      · exact .rejected hstack
      · have hwaiting : Function.update s.waiterStates call (some WaiterState.waiting) call =
            some .waiting := Function.update_self _ _ _
        unfold Queue.canceledWaiter Queue.setWaiter Queue.enter
        dsimp only
        rw [if_neg (not_not_intro hwaiting)]
        exact .escaped hstack
  | canceling call => exact move_abandonWaiter hstack _
  | undelivered | pushing | returning | rejectingAll => cases hforeign

theorem move_raise (hstack : s.stack = frame :: below) (hforeign : frame.isForeign = true)
    (error : ε) :
  Move o s act (({ s with stack := below } : Queue α ε).raise o error frame)
  := by
  have hended : ∀ ended, s.ownerError o = some ended → (s.ownerError o).getD error = ended := by
    intro ended howner
    rw [howner]
    rfl
  cases frame with
  | entering call => exact .unadmitted hstack (.inl rfl) hended
  | registering call => exact .unadmitted hstack (.inr rfl) hended
  | delivering call snapshot operation => exact move_claimed hstack
  | rejecting call error => exact .rejected hstack
  | canceling call => exact move_abandonWaiter hstack _
  | undelivered | pushing | returning | rejectingAll => cases hforeign

/-- The error of a queue that has failed is kept. -/
def Owned (s : Queue α ε) : Prop := s.failure.isSome = true ↔ s.state = .failed

/-- A queue has an error when it has ended. -/
theorem Owned.ownerError_eq_none (h : Owned s) (o : Options ε) :
  s.ownerError o = none ↔ s.state = .running
  := by
  unfold Owned at h
  unfold Queue.ownerError
  cases hfailure : s.failure with
  | some error =>
      rw [hfailure] at h
      have hstate : s.state = .failed := h.1 rfl
      simp [hstate]
  | none =>
      rw [hfailure] at h
      cases hstate : s.state with
      | running | stopped => simp
      | failed =>
          rw [hstate] at h
          simp at h

theorem move_outside (howned : Owned s) (houtside : s.isOutside = true)
    (h : s.outside o act = some s') :
  Move o s act s'
  := by
  have hforeign : ∀ {frame : Frame α ε} {below : List (Frame α ε)}, s.stack = frame :: below →
      frame.isForeign = true := by
    intro frame below hstack
    rw [Queue.isOutside, hstack] at houtside
    exact houtside
  cases act with
  | run => cases h
  | next =>
      simp only [Queue.outside, Option.some.injEq] at h
      subst h
      unfold Queue.next
      cases howner : s.ownerError o with
      | some error =>
          have howner' : (({ s with
              calls := s.calls + 1, activeOperations := s.activeOperations + 1 } : Queue α ε).log
              (.called s.calls)).ownerError o = some error := howner
          dsimp only
          rw [howner']
          exact .refused houtside howner
      | none =>
          have howner' : (({ s with
              calls := s.calls + 1, activeOperations := s.activeOperations + 1 } : Queue α ε).log
              (.called s.calls)).ownerError o = none := howner
          dsimp only
          rw [howner']
          exact .entered houtside howner
  | push snapshot =>
      simp only [Queue.outside, Option.some.injEq] at h
      subst h
      unfold Queue.push
      dsimp only
      split
      · rename_i value howner
        exact .pushed houtside howner
      · exact .unpushed houtside
  | fail error =>
      simp only [Queue.outside, Option.some.injEq] at h
      subst h
      unfold Queue.fail
      split
      · exact .ignored
      · rename_i howner
        apply move_publishTerminal houtside (Option.not_isSome_iff_eq_none.1 howner)
        · rintro ⟨⟩
        · simp
        · rfl
  | stop =>
      simp only [Queue.outside, Option.some.injEq] at h
      subst h
      unfold Queue.stop
      split
      · rename_i hstate
        have hnone : s.failure = none := by
          rw [← Option.not_isSome_iff_eq_none]
          intro hsome
          rw [howned.1 hsome] at hstate
          cases hstate
        apply move_publishTerminal houtside ((howned.ownerError_eq_none o).2 hstate)
        · rintro ⟨⟩
        · simp [hnone]
        · rw [hnone]
          rfl
      · exact .ignored
  | cancel call =>
      simp only [Queue.outside] at h
      split at h
      · cases h
        exact move_canceledWaiter call houtside
      · cases h
  | returns value =>
      simp only [Queue.outside] at h
      split at h
      · cases h
      · rename_i frame below hstack
        cases h
        exact move_resume hstack (hforeign hstack) value
  | throws error =>
      simp only [Queue.outside] at h
      split at h
      · cases h
      · rename_i frame below hstack
        cases h
        exact move_raise hstack (hforeign hstack) error

theorem move_of_step (howned : Owned s) (h : s.step o act = some s') :
  Move o s act s'
  := by
  unfold Queue.step at h
  split at h
  · rename_i houtside
    exact move_outside howned houtside h
  · split at h
    · rename_i frame below hstack
      exact move_turn hstack h
    · cases h

end Registry.Mdns.SnapshotQueue
