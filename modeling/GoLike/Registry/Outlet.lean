import GoLike.Registry.Document

/-!
# The consumer side of a watcher

A watcher hands out each change of the instances of a service as a complete snapshot. It
queues the snapshots that no call waits for, and ends when it is stopped or fails.
-/

namespace Registry

variable {urls : UrlParser} {ε : Type}

/-- The complete instances of a service. -/
abbrev Snapshot (urls : UrlParser) : Type := List (ServiceInstance urls)

/-- What a watcher rejects with; `ε` are the errors of its provider. -/
inductive WatchError (ε : Type) where
  | overflow (bufferSize : ℕ)
  | stopped
  /-- The cause of the context of the call. -/
  | canceled
  | provider (e : ε)

/-- How a call for the next snapshot ends. -/
inductive Outcome (urls : UrlParser) (ε : Type) where
  | resolved (value : Snapshot urls)
  | rejected (e : WatchError ε)

/-- The consumer side of a watcher. The calls for the next snapshot are numbered. -/
structure Outlet (urls : UrlParser) (ε : Type) where
  bufferSize : ℕ
  current : Snapshot urls
  queue : List (Snapshot urls)
  /-- The calls that wait, in order. -/
  waiters : List ℕ
  /-- The calls that have ended. -/
  outcomes : List (ℕ × Outcome urls ε)
  /-- The number of calls. -/
  calls : ℕ
  failure : Option (WatchError ε)
  stopped : Bool

/-- The consumer side of a new watcher. -/
def newOutlet (bufferSize : ℕ) (initial : Snapshot urls) : Outlet urls ε where
  bufferSize := bufferSize
  current := initial
  queue := if initial.isEmpty then [] else [initial]
  waiters := []
  outcomes := []
  calls := 0
  failure := none
  stopped := false

namespace Outlet

/-- The owner of the watcher has aborted its work. -/
def aborted (o : Outlet urls ε) : Bool := o.failure.isSome || o.stopped

/-- Reject every call that waits. -/
def rejectWaiters (o : Outlet urls ε) (e : WatchError ε) : Outlet urls ε :=
  { o with
    queue := []
    waiters := []
    outcomes := o.outcomes ++ o.waiters.map (fun waiter => (waiter, .rejected e)) }

/-- Terminate the watcher with one failure. -/
def fail (o : Outlet urls ε) (e : WatchError ε) : Outlet urls ε :=
  if o.failure.isSome ∨ o.stopped then o
  else { o.rejectWaiters e with failure := some e }

/-- Queue a snapshot, or deliver it to the first call that waits. -/
def emit (o : Outlet urls ε) (value : Snapshot urls) : Outlet urls ε :=
  if o.failure.isSome ∨ o.stopped then o
  else
    match o.waiters with
    | waiter :: rest =>
        { o with waiters := rest, outcomes := o.outcomes ++ [(waiter, .resolved value)] }
    | [] =>
        if o.queue.length ≥ o.bufferSize then o.fail (.overflow o.bufferSize)
        else { o with queue := o.queue ++ [value] }

/-- Publish a snapshot unless it is the current one. -/
def publish (o : Outlet urls ε) (next : Snapshot urls) : Outlet urls ε :=
  if sameSnapshot o.current next then o else { o with current := next }.emit next

/-- End the call that is made now. -/
def answer (o : Outlet urls ε) (outcome : Outcome urls ε) : Outlet urls ε :=
  { o with calls := o.calls + 1, outcomes := o.outcomes ++ [(o.calls, outcome)] }

/-- Call for the next snapshot. The context of the call may be terminal. -/
def next (o : Outlet urls ε) (terminal : Bool) : Outlet urls ε :=
  match o.failure with
  | some e => o.answer (.rejected e)
  | none =>
      if o.stopped then o.answer (.rejected .stopped)
      else if terminal then o.answer (.rejected .canceled)
      else
        match o.queue with
        | queued :: rest => { o with queue := rest }.answer (.resolved queued)
        | [] => { o with calls := o.calls + 1, waiters := o.waiters ++ [o.calls] }

/-- The context of a call that waits ends. -/
def abandon (o : Outlet urls ε) (waiter : ℕ) : Outlet urls ε :=
  if waiter ∈ o.waiters then
    { o with
      waiters := o.waiters.erase waiter
      outcomes := o.outcomes ++ [(waiter, .rejected .canceled)] }
  else o

/-- Stop the watcher. -/
def stop (o : Outlet urls ε) : Outlet urls ε :=
  if o.stopped then o else { o.rejectWaiters .stopped with stopped := true }

/-- What a consumer does. -/
inductive Call where
  | next (terminal : Bool)
  | abandon (waiter : ℕ)
  | stop

/-- The consumer side after a call. -/
def perform (o : Outlet urls ε) : Call → Outlet urls ε
  | .next terminal => o.next terminal
  | .abandon waiter => o.abandon waiter
  | .stop => o.stop

/-! ### The current snapshot -/

@[simp]
theorem current_fail (o : Outlet urls ε) (e : WatchError ε) :
  (o.fail e).current = o.current
  := by
  rw [fail]
  split
  · rfl
  · rfl

@[simp]
theorem current_emit (o : Outlet urls ε) (value : Snapshot urls) :
  (o.emit value).current = o.current
  := by
  rw [emit]
  split
  · rfl
  · split
    · rfl
    · split
      · apply current_fail
      · rfl

/-- What is published is current. -/
@[simp]
theorem current_publish (o : Outlet urls ε) (value : Snapshot urls) :
  (o.publish value).current = value
  := by
  rw [publish]
  split
  · rename_i h
    exact sameSnapshot_iff.mp h
  · apply current_emit

/-- A call of the consumer keeps the current snapshot. -/
@[simp]
theorem current_perform (o : Outlet urls ε) (call : Call) :
  (o.perform call).current = o.current
  := by
  cases call with
  | next terminal =>
      rw [perform, next]
      split
      · rfl
      · split
        · rfl
        · split
          · rfl
          · split
            · rfl
            · rfl
  | abandon waiter =>
      rw [perform, abandon]
      split
      · rfl
      · rfl
  | stop =>
      rw [perform, stop]
      split
      · rfl
      · rfl

/-! ### The calls of the consumer -/

/-- Every call has ended or waits, and no call waits for a watcher that has ended. -/
structure Settled (o : Outlet urls ε) : Prop where
  calls : ∀ i < o.calls, i ∈ o.waiters ∨ ∃ outcome, (i, outcome) ∈ o.outcomes
  waiters : o.aborted = true → o.waiters = []

/-- What a step keeps: the calls are settled, a watcher that has ended stays so, and a new
failure is received by every call that waits. -/
structure Evolves (o o' : Outlet urls ε) : Prop where
  settled : o.Settled → o'.Settled
  aborted : o.aborted = true → o'.aborted = true
  received : ∀ e, o.failure = none → o'.failure = some e → ∀ waiter ∈ o.waiters,
    (waiter, .rejected e) ∈ o'.outcomes

/-- A step that concerns no call. -/
theorem evolves_of_eq {o o' : Outlet urls ε} (hwaiters : o'.waiters = o.waiters)
    (houtcomes : o'.outcomes = o.outcomes) (hcalls : o'.calls = o.calls)
    (hfailure : o'.failure = o.failure) (hstopped : o'.stopped = o.stopped) :
  o.Evolves o'
  := by
  have haborted : o'.aborted = o.aborted := by
    rw [aborted, aborted, hfailure, hstopped]
  constructor
  case settled =>
    intro h
    constructor
    case calls =>
      rw [hcalls, hwaiters, houtcomes]
      exact h.calls
    case waiters =>
      rw [haborted, hwaiters]
      exact h.waiters
  case aborted =>
    rw [haborted]
    exact id
  case received =>
    intro e hnone hsome
    rw [hfailure, hnone] at hsome
    cases hsome

theorem Evolves.refl (o : Outlet urls ε) :
  o.Evolves o
  := evolves_of_eq rfl rfl rfl rfl rfl

/-- Every call that waits is rejected, so that all calls have ended. -/
theorem Settled.rejectWaiters {o : Outlet urls ε} (h : o.Settled) (e : WatchError ε) :
  ∀ i < o.calls, ∃ outcome, (i, outcome) ∈ (o.rejectWaiters e).outcomes
  := by
  intro i hi
  obtain hwaits | ⟨outcome, hended⟩ := h.calls i hi
  · use .rejected e
    apply List.mem_append_right
    exact List.mem_map_of_mem hwaits
  · use outcome
    exact List.mem_append_left _ hended

theorem evolves_fail (o : Outlet urls ε) (e : WatchError ε) :
  o.Evolves (o.fail e)
  := by
  rw [fail]
  split
  · exact .refl o
  · rename_i hrunning
    constructor
    case settled =>
      intro h
      constructor
      case calls =>
        intro i hi
        exact .inr (h.rejectWaiters e i hi)
      case waiters =>
        intro _
        rfl
    case aborted =>
      intro _
      rfl
    case received =>
      rintro _ _ ⟨⟩ waiter hwaits
      apply List.mem_append_right
      exact List.mem_map_of_mem hwaits

theorem evolves_emit (o : Outlet urls ε) (value : Snapshot urls) :
  o.Evolves (o.emit value)
  := by
  rw [emit]
  split
  · exact .refl o
  · rename_i hrunning
    split
    · rename_i waiter rest hwaiters
      constructor
      case settled =>
        intro h
        constructor
        case calls =>
          intro i hi
          obtain hwaits | ⟨outcome, hended⟩ := h.calls i hi
          · rw [hwaiters] at hwaits
            obtain rfl | hwaits := List.mem_cons.mp hwaits
            · right
              use .resolved value
              simp
            · exact .inl hwaits
          · right
            use outcome
            exact List.mem_append_left _ hended
        case waiters =>
          intro haborted
          rw [aborted, Bool.or_eq_true] at haborted
          exact absurd haborted hrunning
      case aborted => exact id
      case received =>
        intro e hnone hsome
        rw [hnone] at hsome
        cases hsome
    · split
      · apply evolves_fail
      · exact evolves_of_eq rfl rfl rfl rfl rfl

theorem evolves_publish (o : Outlet urls ε) (value : Snapshot urls) :
  o.Evolves (o.publish value)
  := by
  rw [publish]
  split
  · exact .refl o
  · have h : Evolves { o with current := value } (emit { o with current := value } value) :=
      evolves_emit _ _
    exact ⟨fun hsettled => h.settled ⟨hsettled.calls, hsettled.waiters⟩, h.aborted, h.received⟩

theorem evolves_answer (o : Outlet urls ε) (outcome : Outcome urls ε) :
  o.Evolves (o.answer outcome)
  := by
  constructor
  case settled =>
    intro h
    constructor
    case calls =>
      intro i hi
      obtain rfl | hi := Nat.lt_succ_iff_lt_or_eq.mp hi |>.symm
      · right
        use outcome
        simp [answer]
      · obtain hwaits | ⟨outcome', hended⟩ := h.calls i hi
        · exact .inl hwaits
        · right
          use outcome'
          exact List.mem_append_left _ hended
    case waiters => exact h.waiters
  case aborted => exact id
  case received =>
    intro e hnone hsome
    rw [answer, hnone] at hsome
    cases hsome

theorem evolves_next (o : Outlet urls ε) (terminal : Bool) :
  o.Evolves (o.next terminal)
  := by
  rw [next]
  split
  · apply evolves_answer
  · rename_i hfailure
    split
    · apply evolves_answer
    · rename_i hstopped
      split
      · apply evolves_answer
      · split
        · rename_i queued rest hqueue
          have h : Evolves { o with queue := rest } (answer { o with queue := rest } (.resolved queued)) :=
            evolves_answer _ _
          exact ⟨fun hsettled => h.settled ⟨hsettled.calls, hsettled.waiters⟩, h.aborted, h.received⟩
        · constructor
          case settled =>
            intro h
            constructor
            case calls =>
              intro i hi
              obtain hi | rfl := Nat.lt_succ_iff_lt_or_eq.mp hi
              · obtain hwaits | hended := h.calls i hi
                · exact .inl (List.mem_append_left _ hwaits)
                · exact .inr hended
              · left
                simp
            case waiters =>
              intro haborted
              simp [aborted, hfailure, hstopped] at haborted
          case aborted => exact id
          case received =>
            intro e hnone hsome
            rw [hnone] at hsome
            cases hsome

theorem evolves_abandon (o : Outlet urls ε) (waiter : ℕ) :
  o.Evolves (o.abandon waiter)
  := by
  rw [abandon]
  split
  · rename_i hwaits
    constructor
    case settled =>
      intro h
      constructor
      case calls =>
        intro i hi
        by_cases hwaiter : i = waiter
        · right
          use .rejected .canceled
          simp [hwaiter]
        · obtain hwaits' | ⟨outcome, hended⟩ := h.calls i hi
          · exact .inl ((List.mem_erase_of_ne hwaiter).mpr hwaits')
          · right
            use outcome
            exact List.mem_append_left _ hended
      case waiters =>
        intro haborted
        rw [h.waiters haborted] at hwaits
        exact absurd hwaits List.not_mem_nil
    case aborted => exact id
    case received =>
      intro e hnone hsome
      rw [hnone] at hsome
      cases hsome
  · exact .refl o

theorem evolves_stop (o : Outlet urls ε) :
  o.Evolves o.stop
  := by
  rw [stop]
  split
  · exact .refl o
  · constructor
    case settled =>
      intro h
      constructor
      case calls =>
        intro i hi
        exact .inr (h.rejectWaiters .stopped i hi)
      case waiters =>
        intro _
        rfl
    case aborted =>
      intro _
      simp [aborted]
    case received =>
      intro e hnone hsome
      rw [rejectWaiters, hnone] at hsome
      cases hsome

/-- A call of the consumer. -/
theorem evolves_perform (o : Outlet urls ε) (call : Call) :
  o.Evolves (o.perform call)
  := by
  cases call with
  | next terminal => exact o.evolves_next terminal
  | abandon waiter => exact o.evolves_abandon waiter
  | stop => exact o.evolves_stop

end Outlet

end Registry
