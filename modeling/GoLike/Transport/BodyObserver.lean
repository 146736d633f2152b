import GoLike.Transport.EventStats

/-!
# The observer of a body

The body of a response is handed on as a stream of its own, which reads the source when it is read.
The observer reports once how the body has ended: the source has no more chunks, an event stream
has delivered its terminal event, a read of the source has failed, or the body was canceled.
-/

namespace Transport

/-! ### Reports -/

/-- How a body has ended. -/
inductive BodyEnd where
  /-- The source has no more chunks. -/
  | finished
  | terminal (event : Terminal)
  /-- A read of the source has failed. -/
  | failed
  | canceled
  deriving DecidableEq

/-- The reason that is reported. -/
inductive ResponseBodyEndReason where
  | ended
  | error
  | cancel
  deriving DecidableEq

def BodyEnd.reason : BodyEnd → ResponseBodyEndReason
  | .finished => .ended
  | .terminal event => if event = .error then .error else .ended
  | .failed => .error
  | .canceled => .cancel

/-- The source came to its end, or to the end that its events name. -/
def BodyEnd.isComplete : BodyEnd → Bool
  | .finished => true
  | .terminal _ => true
  | .failed => false
  | .canceled => false

/-! ### The stream -/

/-- The stream that is handed on. -/
inductive StreamState where
  | readable
  | closed
  | errored
  deriving DecidableEq

/-- What a read of the source yields. -/
inductive ReadResult where
  | done
  | chunk (value : List UInt8)
  | failed
  deriving DecidableEq

/-- The options of an observer. -/
structure ObserveOptions where
  hasSignal : Bool
  /-- The source is canceled after a terminal event. -/
  cancelSource : Bool

/-- An observed body. -/
structure ObservedBody where
  streaming : Bool
  stats : Observer
  reported : Option BodyEnd
  consumerCanceled : Bool
  /-- A read of the source is under way. -/
  reading : Bool
  delivered : List (List UInt8)
  stream : StreamState
  sourceCanceled : Bool

/-- A body that has a reader of its own. -/
def observeBody (streaming : Bool) : ObservedBody :=
  ⟨streaming, createEventStats, none, false, false, [], .readable, false⟩

/-- What happens to an observed body. -/
inductive BodyEvent where
  /-- The consumer reads. -/
  | pull
  /-- The read of the source yields. -/
  | settles (result : ReadResult)
  /-- The consumer cancels. -/
  | cancel
  /-- The signal of the caller aborts. -/
  | abort
  deriving DecidableEq

variable (numberValue : List UInt16 → JsNumber) (options : ObserveOptions)

namespace ObservedBody

/-- Publish the first end. -/
def report (b : ObservedBody) (how : BodyEnd) : ObservedBody :=
  if b.reported.isSome then b
  else
    { b with
      reported := some how
      stats := if b.streaming then b.stats.finish numberValue else b.stats }

/-- End a pull after the report. -/
def finishPull (b : ObservedBody) : ObservedBody :=
  if b.consumerCanceled then b
  else if b.reported = some .canceled then { b with stream := .errored }
  else { b with stream := .closed }

/-- The events of a chunk are counted, and it is handed on. -/
def enqueue (b : ObservedBody) (chunk : List UInt8) : ObservedBody :=
  { b with
    stats := if b.streaming then b.stats.push numberValue chunk else b.stats
    delivered := b.delivered ++ [chunk] }

/-- After a chunk. -/
def enqueued (b : ObservedBody) : ObservedBody :=
  if b.streaming ∧ b.stats.stats.terminal ≠ .none then
    { b.report numberValue (.terminal b.stats.stats.terminal) with
      sourceCanceled := b.sourceCanceled || options.cancelSource }
  else b

/-- A read of the source yields. -/
def settle (b : ObservedBody) (result : ReadResult) : ObservedBody :=
  let b := { b with reading := false }
  if b.reported.isSome then b.finishPull
  else
    match result with
    | .done => { b.report numberValue .finished with stream := .closed }
    | .chunk value => (b.enqueue numberValue value).enqueued numberValue options
    | .failed => { b.report numberValue .failed with stream := .errored }

/-- The consumer cancels the stream, which is closed before the source hears of it. -/
def cancel (b : ObservedBody) : ObservedBody :=
  let b := { b with stream := .closed, consumerCanceled := true }
  if b.streaming ∧ b.stats.stats.terminal ≠ .none then
    { b.report numberValue (.terminal b.stats.stats.terminal) with
      sourceCanceled := b.sourceCanceled || options.cancelSource }
  else { b.report numberValue .canceled with sourceCanceled := true }

/-- Something happens to a body, if it can. A stream pulls once at a time. -/
def step (b : ObservedBody) : BodyEvent → Option ObservedBody
  | .pull =>
      if b.stream = .readable ∧ b.reading = false then
        some (if b.reported.isSome then b.finishPull else { b with reading := true })
      else none
  | .settles result => if b.reading then some (b.settle numberValue options result) else none
  | .cancel => if b.stream = .readable then some (b.cancel numberValue options) else none
  | .abort =>
      -- The report detaches the listener.
      if options.hasSignal ∧ b.reported = none then
        some { b.report numberValue .canceled with sourceCanceled := true }
      else none

end ObservedBody

/-- The end that an event brings to a body that has not ended: a failed read, or a cancellation. -/
def BodyEvent.interrupts : BodyEvent → Bool
  | .settles .failed => true
  | .cancel => true
  | .abort => true
  | _ => false

/-! ### One report -/

namespace ObservedBody

variable {numberValue : List UInt16 → JsNumber} {options : ObserveOptions} {b b' : ObservedBody}

/-- Before the report no terminal event has been delivered. -/
def Quiet (b : ObservedBody) : Prop :=
  b.reported = none → ¬ (b.streaming = true ∧ b.stats.stats.terminal ≠ .none)

theorem quiet_observeBody (streaming : Bool) :
  (observeBody streaming).Quiet
  := by
  rintro - ⟨-, h⟩
  exact h rfl

theorem reported_report (b : ObservedBody) (how : BodyEnd) :
  (b.report numberValue how).reported = some (b.reported.getD how)
  := by
  rw [report]
  cases h : b.reported with
  | none => rfl
  | some first => exact h

theorem reported_finishPull (b : ObservedBody) :
  b.finishPull.reported = b.reported
  := by
  rw [finishPull]
  split
  · rfl
  · split <;> rfl

/-- A chunk ends a body exactly with the terminal event. -/
theorem reported_enqueued (hopen : b.reported = none) :
  ((b.enqueued numberValue options).reported = none ∧ (b.enqueued numberValue options).Quiet) ∨
    ∃ event, (b.enqueued numberValue options).reported = some (.terminal event)
  := by
  rw [enqueued]
  split
  · right
    use b.stats.stats.terminal
    rw [reported_report, hopen]
    rfl
  · rename_i hquiet
    exact .inl ⟨hopen, fun _ => hquiet⟩

/-- What is reported first stays. -/
theorem reported_step {e : BodyEvent} {how : BodyEnd} (hreported : b.reported = some how)
    (hstep : b.step numberValue options e = some b') :
  b'.reported = some how
  := by
  have hsome : b.reported.isSome := by rw [hreported]; rfl
  cases e with
  | pull =>
      rw [step, if_pos hsome] at hstep
      obtain ⟨-, ⟨⟩⟩ := Option.ite_none_right_eq_some.1 hstep
      rw [reported_finishPull, hreported]
  | settles result =>
      obtain ⟨-, ⟨⟩⟩ := Option.ite_none_right_eq_some.1 hstep
      unfold settle
      rw [if_pos hsome, reported_finishPull]
      exact hreported
  | cancel =>
      obtain ⟨-, ⟨⟩⟩ := Option.ite_none_right_eq_some.1 hstep
      rw [cancel]
      dsimp only
      split
      · rw [reported_report, hreported]
        rfl
      · rw [reported_report, hreported]
        rfl
  | abort =>
      obtain ⟨⟨-, hnone⟩, -⟩ := Option.ite_none_right_eq_some.1 hstep
      rw [hreported] at hnone
      cases hnone

/-- A body that has not ended goes on, or its end is reported. It is complete unless a read has
failed or the body was canceled. -/
theorem reported_step_of_none {e : BodyEvent} (hquiet : b.Quiet) (hopen : b.reported = none)
    (hstep : b.step numberValue options e = some b') :
  (b'.reported = none ∧ b'.Quiet ∧ e.interrupts = false) ∨
    ∃ how, b'.reported = some how ∧ how.isComplete = !e.interrupts
  := by
  have hnone : ¬ b.reported.isSome := by rw [hopen]; exact Bool.false_ne_true
  cases e with
  | pull =>
      rw [step, if_neg hnone] at hstep
      obtain ⟨-, ⟨⟩⟩ := Option.ite_none_right_eq_some.1 hstep
      exact .inl ⟨hopen, hquiet, rfl⟩
  | settles result =>
      obtain ⟨-, ⟨⟩⟩ := Option.ite_none_right_eq_some.1 hstep
      unfold settle
      rw [if_neg hnone]
      cases result with
      | done =>
          right
          use .finished
          rw [reported_report]
          dsimp only
          rw [hopen]
          exact ⟨rfl, rfl⟩
      | chunk value =>
          have henqueue : (enqueue numberValue { b with reading := false } value).reported = none :=
            hopen
          obtain ⟨hstays, hquiet'⟩ | ⟨event, hevent⟩ := reported_enqueued henqueue
          · exact .inl ⟨hstays, hquiet', rfl⟩
          · exact .inr ⟨_, hevent, rfl⟩
      | failed =>
          right
          use .failed
          rw [reported_report]
          dsimp only
          rw [hopen]
          exact ⟨rfl, rfl⟩
  | cancel =>
      obtain ⟨-, ⟨⟩⟩ := Option.ite_none_right_eq_some.1 hstep
      right
      use .canceled
      rw [cancel]
      dsimp only
      rw [if_neg (hquiet hopen), reported_report, hopen]
      exact ⟨rfl, rfl⟩
  | abort =>
      obtain ⟨-, ⟨⟩⟩ := Option.ite_none_right_eq_some.1 hstep
      right
      use .canceled
      rw [reported_report, hopen]
      exact ⟨rfl, rfl⟩

end ObservedBody

end Transport
