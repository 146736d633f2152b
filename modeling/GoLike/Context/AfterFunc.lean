import Mathlib.Data.List.Count
import Mathlib.Logic.Relation

/-!
# Functions that run after a context

`afterFunc` registers a function with a context and returns a `stop`. The registration goes through
the signal of the context or through an `afterFunc` of the context's own, and what it calls there may
call back before it returns: the callback that admits the function, or `stop`. The machine below is
one registration, with the calls that it has open, in the hands of any such code.
-/

namespace AfterFunc

inductive OnceState where
  | pending
  | admitted
  | stopped
  | invalid
  deriving DecidableEq

/-- How a registration goes. -/
inductive Route where
  /-- The context has no signal. -/
  | none
  /-- The signal had aborted before. -/
  | aborted
  | listener
  /-- The `afterFunc` of the context itself. -/
  | delegate
  deriving DecidableEq

/-- What `registerContextAfterFunc` reads from a context. -/
structure Methods where
  /-- If the signal has aborted, where there is one. -/
  signalAborted : Option Bool
  hasLocalCancelSignal : Bool
  /-- The context has a callable property `afterFunc`. -/
  hasDelegate : Bool

/-- Done comes first, then the cancellation of this package, then a hook, then the signal. -/
def registerContextAfterFunc (methods : Methods) : Route :=
  match methods.signalAborted with
  | none => .none
  | some true => .aborted
  | some false =>
      if methods.hasLocalCancelSignal then .listener
      else if methods.hasDelegate then .delegate
      else .listener

/-- Who has called `admitCallback`. -/
inductive Caller where
  /-- Code outside, as the listener of a signal or as the callback of a hook. -/
  | outside
  /-- The registration itself: for an admission that was buffered, or a signal that has aborted. -/
  | registration
  /-- The microtask queue, which runs the function. -/
  | microtask
  deriving DecidableEq

/-- What is done after the removal of the listener. -/
inductive Removal where
  | admitting (caller : Caller)
  | stop (call : ℕ)
  /-- The registration throws. -/
  | fail
  deriving DecidableEq

/-- A call of code outside that has not returned. -/
inductive Frame where
  | delegating
  /-- In `addEventListener`. -/
  | adding
  /-- At the read of `aborted` behind `addEventListener`. -/
  | checking
  /-- In `removeEventListener`. -/
  | removing (next : Removal)
  /-- In the function that was registered. -/
  | running (caller : Caller)
  /-- In the `stop` of the hook. -/
  | stopping (call : ℕ)
  deriving DecidableEq

/-- What has happened. Calls of `stop` are numbered in their order. -/
inductive Event where
  | admitted
  /-- The function was called, or handed to the microtask queue. -/
  | handed
  | ran
  | stopCalled (call : ℕ)
  | stopReturned (call : ℕ) (result : Bool)
  | stopThrew (call : ℕ)
  /-- The `stop` of the hook has returned, with `true` or with another value. -/
  | delegateStopped (call : ℕ) (isTrue : Bool)
  deriving DecidableEq

/-- A registration. -/
structure Registration where
  route : Route
  /-- The function is handed to the microtask queue. -/
  queued : Bool
  state : OnceState
  ready : Bool
  bufferedAdmission : Bool
  stopAttempted : Bool
  listening : Bool
  /-- `stop` was returned to the caller. -/
  returned : Bool
  /-- How often `stop` was called. -/
  stopCalls : ℕ
  /-- How often the function is in the microtask queue. -/
  microtasks : ℕ
  stack : List Frame
  /-- What has happened, the latest event first. -/
  events : List Event

/-- A value that code outside returns. -/
structure Value where
  callable : Bool
  truthy : Bool
  isTrue : Bool

/-- What code outside does next: it calls, or it ends the call that is on top. -/
inductive Act where
  | callback
  | stop
  | returns (value : Value)
  | throws
  | microtask

namespace Registration

variable (s : Registration)

def push (frame : Frame) : Registration := { s with stack := frame :: s.stack }

def log (event : Event) : Registration := { s with events := event :: s.events }

/-- The signal of the context has a listener, or had one. -/
def hasSignal : Bool := s.route == .aborted || s.route == .listener

/-- `admitCallback` has returned. -/
def admitReturned : Caller → Registration
  | .outside => s
  | .registration => { s with returned := true }
  | .microtask => s

/-- The function is called, or handed to the queue. -/
def hand (caller : Caller) : Registration :=
  if s.queued then
    admitReturned ({ s with microtasks := s.microtasks + 1 }.log .handed) caller
  else ((s.log .handed).log .ran).push (.running caller)

/-- The listener is removed before what is done next. -/
def removeListener (next : Removal) (done : Registration → Registration) : Registration :=
  if !s.listening || !s.hasSignal then done s
  else { s with listening := false }.push (.removing next)

def admitCallback (caller : Caller) : Registration :=
  if s.route = .delegate ∧ s.ready = false then { s with bufferedAdmission := true }
  else if s.state ≠ .pending then s.admitReturned caller
  else if s.route = .delegate then ({ s with state := .admitted }.log .admitted).hand caller
  else
    ({ s with state := .admitted }.log .admitted).removeListener (.admitting caller)
      (fun s => s.hand caller)

/-- What follows the removal of the listener. -/
def removed : Removal → Registration
  | .admitting caller => s.hand caller
  | .stop call => s.log (.stopReturned call true)
  | .fail => s

/-- A call of the returned `stop`. -/
def stop : Registration :=
  let call := s.stopCalls
  let s := { s with stopCalls := call + 1 }.log (.stopCalled call)
  if s.route = .delegate then
    if s.state ≠ .pending ∨ s.stopAttempted then s.log (.stopReturned call false)
    else { s with stopAttempted := true }.push (.stopping call)
  else if s.state ≠ .pending then s.log (.stopReturned call false)
  else
    { s with state := .stopped }.removeListener (.stop call)
      (fun s => s.log (.stopReturned call true))

/-- The call on top returns. -/
def resume (value : Value) : Frame → Registration
  | .delegating =>
      if value.callable then
        if s.bufferedAdmission then { s with ready := true }.admitCallback .registration
        else { s with ready := true, returned := true }
      else { s with state := .invalid, bufferedAdmission := false }
  | .adding => s.push .checking
  | .checking => if value.truthy then s.admitCallback .registration else { s with returned := true }
  | .removing next => s.removed next
  | .running caller => s.admitReturned caller
  | .stopping call =>
      let s := s.log (.delegateStopped call value.isTrue)
      if s.state ≠ .pending then s.log (.stopReturned call false)
      else if !value.isTrue then s.log (.stopReturned call false)
      else { s with state := .stopped }.log (.stopReturned call true)

/-- The call on top throws. -/
def fail : Frame → Registration
  | .delegating => { s with state := .invalid, bufferedAdmission := false }
  | .adding | .checking => s.removeListener .fail (fun s => s)
  | .removing next => s.removed next
  | .running caller =>
      -- what a hook or an aborted signal has the registration run is outside of its `try`
      if caller = .registration ∧ s.route = .listener then
        s.removeListener .fail (fun s => s)
      else s
  | .stopping call =>
      (if s.state = .pending then { s with state := .stopped } else s).log (.stopThrew call)

/-- A step, where it can be taken. -/
def step : Act → Option Registration
  | .callback =>
      if s.route = .listener ∨ s.route = .delegate then some (s.admitCallback .outside) else none
  | .stop => if s.returned then some s.stop else none
  | .returns value =>
      match s.stack with
      | [] => none
      | frame :: stack => some ({ s with stack := stack }.resume value frame)
  | .throws =>
      match s.stack with
      | [] => none
      | frame :: stack => some ({ s with stack := stack }.fail frame)
  | .microtask =>
      if s.stack = [] ∧ 0 < s.microtasks then
        some (({ s with microtasks := s.microtasks - 1 }.log .ran).push (.running .microtask))
      else none

end Registration

/-- A registration as it begins. -/
def registered (route : Route) (queued : Bool) : Registration :=
  let s : Registration :=
    ⟨route, queued, .pending, false, false, false, false, false, 0, 0, [], []⟩
  match route with
  | .none => { s with returned := true }
  | .aborted => s.admitCallback .registration
  | .listener => { s with listening := true }.push .adding
  | .delegate => s.push .delegating

/-- The registrations that `afterFunc` leads to, whatever the code around it does. -/
inductive Reachable (methods : Methods) (queued : Bool) : Registration → Prop
  | registered : Reachable methods queued (registered (registerContextAfterFunc methods) queued)
  | step {s s' : Registration} {act : Act} (h : Reachable methods queued s)
      (hstep : s.step act = some s') : Reachable methods queued s'

/-! ### What holds at every time -/

/-- The frame is that of an admission whose function was not handed over. -/
def Frame.isAdmission : Frame → Bool
  | .removing (.admitting _) => true
  | _ => false

/-- The frame is that of a call of `stop` that returns `true`. -/
def Frame.isTrueStop : Frame → Bool
  | .removing (.stop _) => true
  | _ => false

/-- The frame is that of a call of the `stop` of the hook. -/
def Frame.isDelegateStop : Frame → Bool
  | .stopping _ => true
  | _ => false

/-- The event is the return of a `stop` with `true`. -/
def Event.isTrueStop : Event → Bool
  | .stopReturned _ result => result
  | _ => false

section Counts

variable (event : Event) (events : List Event) (frame : Frame) (stack : List Frame)

def admissions : ℕ := events.count .admitted

def handOffs : ℕ := events.count .handed

def runs : ℕ := events.count .ran

/-- The calls of `stop` that have returned `true`. -/
def trueStops : ℕ := events.countP Event.isTrueStop

/-- The admissions whose function was not handed over yet. -/
def openAdmissions : ℕ := stack.countP Frame.isAdmission

/-- The calls of `stop` that are to return `true`. -/
def openTrueStops : ℕ := stack.countP Frame.isTrueStop

/-- The calls of the `stop` of the hook that have not returned. -/
def openDelegateStops : ℕ := stack.countP Frame.isDelegateStop

@[simp] theorem admissions_cons :
  admissions (event :: events) = admissions events + if event = .admitted then 1 else 0
  := by
  simp [admissions, List.count_cons]

@[simp] theorem handOffs_cons :
  handOffs (event :: events) = handOffs events + if event = .handed then 1 else 0
  := by
  simp [handOffs, List.count_cons]

@[simp] theorem runs_cons :
  runs (event :: events) = runs events + if event = .ran then 1 else 0
  := by
  simp [runs, List.count_cons]

@[simp] theorem trueStops_cons :
  trueStops (event :: events) = trueStops events + if event.isTrueStop then 1 else 0
  := List.countP_cons

@[simp] theorem openAdmissions_cons :
  openAdmissions (frame :: stack) = openAdmissions stack + if frame.isAdmission then 1 else 0
  := List.countP_cons

@[simp] theorem openTrueStops_cons :
  openTrueStops (frame :: stack) = openTrueStops stack + if frame.isTrueStop then 1 else 0
  := List.countP_cons

@[simp] theorem openDelegateStops_cons :
  openDelegateStops (frame :: stack) =
    openDelegateStops stack + if frame.isDelegateStop then 1 else 0
  := List.countP_cons

@[simp] theorem admissions_nil : admissions [] = 0 := rfl

@[simp] theorem handOffs_nil : handOffs [] = 0 := rfl

@[simp] theorem runs_nil : runs [] = 0 := rfl

@[simp] theorem trueStops_nil : trueStops [] = 0 := rfl

@[simp] theorem openAdmissions_nil : openAdmissions [] = 0 := rfl

@[simp] theorem openTrueStops_nil : openTrueStops [] = 0 := rfl

@[simp] theorem openDelegateStops_nil : openDelegateStops [] = 0 := rfl

theorem mem_of_admissions (h : admissions events = 1) :
  .admitted ∈ events
  := by
  apply List.count_pos_iff.1
  rw [← admissions, h]
  exact Nat.one_pos

end Counts

/-- A `stop` that returns `false` has a reason: an admission, an earlier call of `stop`, or the
`stop` of the hook, which did not return `true`. -/
def Justified (route : Route) (call : ℕ) (events : List Event) : Prop :=
  .admitted ∈ events ∨ (∃ earlier < call, .stopCalled earlier ∈ events) ∨
    (route = .delegate ∧ .delegateStopped call false ∈ events)

/-- Every `stop` that has returned `false` had a reason. -/
def Truthful (route : Route) : List Event → Prop
  | [] => True
  | event :: events =>
      (∀ call, event = .stopReturned call false → Justified route call events) ∧
        Truthful route events

theorem Truthful.justified {route : Route} {call : ℕ} {later earlier : List Event}
    (h : Truthful route (later ++ .stopReturned call false :: earlier)) :
  Justified route call earlier
  := by
  induction later with
  | nil => exact h.1 call rfl
  | cons event later ih => exact ih h.2

namespace Registration

/-- The hook has not returned a function yet. -/
def Unready (s : Registration) : Prop := s.route = .delegate ∧ s.ready = false

/-- What holds of a registration at every time. -/
structure Inv (s : Registration) : Prop where
  /-- A function that was admitted is handed over once. -/
  handed : handOffs s.events + openAdmissions s.stack = admissions s.events
  /-- A function that was handed over is run once. -/
  ran : runs s.events + s.microtasks = handOffs s.events
  admitted : admissions s.events = if s.state = .admitted then 1 else 0
  stopped : trueStops s.events + openTrueStops s.stack ≤ if s.state = .stopped then 1 else 0
  /-- The `stop` of the hook is called once, and the state is not `stopped` before it returns. -/
  stopping : openDelegateStops s.stack ≤
    if s.route = .delegate ∧ s.stopAttempted ∧ s.state ≠ .stopped then 1 else 0
  attempted : s.stopAttempted ∨ s.state = .stopped → 0 < s.stopCalls
  called : 0 < s.stopCalls → .stopCalled 0 ∈ s.events
  unready : s.Unready → s.returned = false ∧
    (s.stack = [.delegating] ∧ s.state = .pending ∨ s.stack = [] ∧ s.state = .invalid)
  valid : ¬ s.Unready → .delegating ∉ s.stack ∧ s.state ≠ .invalid
  truthful : Truthful s.route s.events

variable {s : Registration}

attribute [local simp] Unready Truthful Frame.isAdmission Frame.isTrueStop Frame.isDelegateStop
  Event.isTrueStop push log

/-- What is on the stack apart from a hook has begun after the hook returned. -/
theorem Inv.ready {frame : Frame} (h : (s.push frame).Inv) (hframe : frame ≠ .delegating) :
  ¬ s.Unready
  := by
  intro hunready
  obtain ⟨-, ⟨hstack, -⟩ | ⟨hstack, -⟩⟩ := h.unready hunready
  · exact hframe (List.cons.inj hstack).1
  · cases hstack

/-- A frame that stands for neither an admission nor a `stop` is popped. -/
theorem Inv.pop {frame : Frame} (h : (s.push frame).Inv) (hframe : frame ≠ .delegating)
    (hadmission : frame.isAdmission = false) (hstop : frame.isTrueStop = false) :
  s.Inv
  := by
  have hready := h.ready hframe
  obtain ⟨hhanded, hran, hadmitted, hstopped, hstopping, hattempted, hcalled, -, hvalid, htruthful⟩ :=
    h
  simp only [push, openAdmissions_cons, openTrueStops_cons, openDelegateStops_cons, hadmission,
    hstop, Bool.false_eq_true, if_false, Nat.add_zero] at hhanded hstopped hstopping
  apply Inv.mk hhanded hran hadmitted hstopped (Nat.le_of_add_right_le hstopping) hattempted hcalled
    (absurd · hready) _ htruthful
  intro _
  obtain ⟨hmem, hstate⟩ := hvalid hready
  exact ⟨fun h => hmem (List.mem_cons_of_mem _ h), hstate⟩

/-- A frame that stands for neither an admission nor a `stop` is pushed. -/
theorem Inv.push {frame : Frame} (h : s.Inv) (hready : ¬ s.Unready) (hframe : frame ≠ .delegating)
    (hadmission : frame.isAdmission = false) (hstop : frame.isTrueStop = false)
    (hdelegate : frame.isDelegateStop = false) :
  (s.push frame).Inv
  := by
  obtain ⟨hhanded, hran, hadmitted, hstopped, hstopping, hattempted, hcalled, -, hvalid, htruthful⟩ :=
    h
  constructor
  case valid =>
    intro _
    obtain ⟨hmem, hstate⟩ := hvalid hready
    exact ⟨fun h => (List.mem_cons.1 h).elim (fun h => hframe h.symm) hmem, hstate⟩
  case unready => exact (absurd · hready)
  all_goals
    simpa only [Registration.push, openAdmissions_cons, openTrueStops_cons, openDelegateStops_cons,
      hadmission, hstop, hdelegate, Bool.false_eq_true, if_false, Nat.add_zero]

/-- `stop` is returned once a hook has returned. -/
theorem Inv.returns (h : s.Inv) (hready : ¬ s.Unready) :
  Inv { s with returned := true }
  := by
  obtain ⟨hhanded, hran, hadmitted, hstopped, hstopping, hattempted, hcalled, -, hvalid, htruthful⟩ :=
    h
  exact ⟨hhanded, hran, hadmitted, hstopped, hstopping, hattempted, hcalled, (absurd · hready),
    hvalid, htruthful⟩

theorem Inv.admitReturned (h : s.Inv) (hready : ¬ s.Unready) (caller : Caller) :
  (s.admitReturned caller).Inv
  := by
  cases caller with
  | outside | microtask => exact h
  | registration => exact h.returns hready

/-- A `stop` that returns `false` is recorded. -/
theorem Inv.refuse (h : s.Inv) {call : ℕ} (hjustified : Justified s.route call s.events) :
  (s.log (.stopReturned call false)).Inv
  := by
  obtain ⟨hhanded, hran, hadmitted, hstopped, hstopping, hattempted, hcalled, hunready, hvalid,
    htruthful⟩ := h
  constructor
  case truthful =>
    constructor
    · rintro _ ⟨⟩
      exact hjustified
    · exact htruthful
  case called => exact fun h => List.mem_cons_of_mem _ (hcalled h)
  case unready => exact hunready
  case valid => exact hvalid
  all_goals simpa

/-- The function is handed over for an admission. -/
theorem Inv.hand {caller : Caller} (h : (s.push (.removing (.admitting caller))).Inv) :
  (s.hand caller).Inv
  := by
  have hready := h.ready Frame.noConfusion
  unfold Registration.hand
  obtain ⟨hhanded, hran, hadmitted, hstopped, hstopping, hattempted, hcalled, -, hvalid, htruthful⟩ :=
    h
  split
  · have hqueued : ({ s with microtasks := s.microtasks + 1 }.log .handed).Inv := by
      constructor
      case unready => exact (absurd · hready)
      all_goals simp at * <;> grind
    exact hqueued.admitReturned hready caller
  · constructor
    case unready => exact (absurd · hready)
    all_goals simp at * <;> grind

/-- A function is admitted while the registration is pending. -/
theorem Inv.admits (h : s.Inv) (hready : ¬ s.Unready) (hpending : s.state = .pending)
    (caller : Caller) :
  (({ s with state := .admitted }.log .admitted).push (.removing (.admitting caller))).Inv
  := by
  obtain ⟨hhanded, hran, hadmitted, hstopped, hstopping, hattempted, hcalled, -, hvalid, htruthful⟩ :=
    h
  constructor
  case unready => exact (absurd · hready)
  all_goals simp [hpending] at * <;> grind

/-- A listener is removed, where what is done next may as well wait. -/
theorem Inv.removeListener {next : Removal} {done : Registration → Registration}
    (h : (s.push (.removing next)).Inv) (hdone : (done s).Inv) :
  (s.removeListener next done).Inv
  := by
  unfold Registration.removeListener
  split
  · exact hdone
  · obtain ⟨hhanded, hran, hadmitted, hstopped, hstopping, hattempted, hcalled, hunready, hvalid,
      htruthful⟩ := h
    exact ⟨hhanded, hran, hadmitted, hstopped, hstopping, hattempted, hcalled, hunready, hvalid,
      htruthful⟩

theorem Inv.admitCallback (h : s.Inv) (caller : Caller) :
  (s.admitCallback caller).Inv
  := by
  unfold Registration.admitCallback
  split
  · obtain ⟨hhanded, hran, hadmitted, hstopped, hstopping, hattempted, hcalled, hunready, hvalid,
      htruthful⟩ := h
    exact ⟨hhanded, hran, hadmitted, hstopped, hstopping, hattempted, hcalled, hunready, hvalid,
      htruthful⟩
  · rename_i hready
    split
    · exact h.admitReturned hready caller
    · rename_i hstate
      have hadmits := h.admits hready (not_not.1 hstate) caller
      split
      · exact hadmits.hand
      · exact hadmits.removeListener hadmits.hand

/-- The call of a `stop` is recorded. -/
theorem Inv.call (h : s.Inv) :
  ({ s with stopCalls := s.stopCalls + 1 }.log (.stopCalled s.stopCalls)).Inv
  := by
  obtain ⟨hhanded, hran, hadmitted, hstopped, hstopping, hattempted, hcalled, hunready, hvalid,
    htruthful⟩ := h
  constructor
  case attempted => exact fun _ => Nat.succ_pos _
  case called =>
    intro _
    obtain hzero | hpos := Nat.eq_zero_or_pos s.stopCalls
    · simp [hzero]
    · exact List.mem_cons_of_mem _ (hcalled hpos)
  case unready => exact hunready
  case valid => exact hvalid
  all_goals simpa

/-- A `stop` that finds the state decided, or another `stop` before it, may return `false`. -/
theorem Inv.justified (h : s.Inv) (hready : ¬ s.Unready)
    (hstate : s.state ≠ .pending ∨ s.stopAttempted) :
  Justified s.route s.stopCalls s.events
  := by
  have hearlier : 0 < s.stopCalls → Justified s.route s.stopCalls s.events :=
    fun hpos => .inr (.inl ⟨0, hpos, h.called hpos⟩)
  obtain hstate | hattempted := hstate
  · cases hs : s.state with
    | pending => exact absurd hs hstate
    | admitted =>
        left
        apply mem_of_admissions
        rw [h.admitted, if_pos hs]
    | stopped => exact hearlier (h.attempted (.inr hs))
    | invalid => exact absurd hs (h.valid hready).2
  · exact hearlier (h.attempted (.inl hattempted))

theorem Justified.cons {route : Route} {call : ℕ} {events : List Event}
    (h : Justified route call events) (event : Event) :
  Justified route call (event :: events)
  := by
  obtain h | ⟨earlier, hlt, h⟩ | ⟨hroute, h⟩ := h
  · exact .inl (List.mem_cons_of_mem _ h)
  · exact .inr (.inl ⟨earlier, hlt, List.mem_cons_of_mem _ h⟩)
  · exact .inr (.inr ⟨hroute, List.mem_cons_of_mem _ h⟩)

theorem Inv.stop (h : s.Inv) (hreturned : s.returned = true) :
  s.stop.Inv
  := by
  have hready : ¬ s.Unready := by
    intro hunready
    rw [(h.unready hunready).1] at hreturned
    cases hreturned
  have hcall := h.call
  have hfalse : s.state ≠ .pending ∨ s.stopAttempted = true →
      (({ s with stopCalls := s.stopCalls + 1 }.log (.stopCalled s.stopCalls)).log
        (.stopReturned s.stopCalls false)).Inv :=
    fun hstate => hcall.refuse (Justified.cons (h.justified hready hstate) _)
  unfold Registration.stop
  dsimp only
  split
  · split
    · rename_i hstate
      exact hfalse hstate
    · obtain ⟨hhanded, hran, hadmitted, hstopped, hstopping, hattempted, hcalled, -, hvalid,
        htruthful⟩ := hcall
      constructor
      case unready => exact (absurd · hready)
      all_goals simp at * <;> grind
  · split
    · rename_i hstate
      exact hfalse (.inl hstate)
    · obtain ⟨hhanded, hran, hadmitted, hstopped, hstopping, hattempted, hcalled, -, hvalid,
        htruthful⟩ := hcall
      apply Inv.removeListener
      · constructor
        case unready => exact (absurd · hready)
        all_goals simp at * <;> grind
      · constructor
        case unready => exact (absurd · hready)
        all_goals simp at * <;> grind

theorem Inv.removed {next : Removal} (h : (s.push (.removing next)).Inv) :
  (s.removed next).Inv
  := by
  cases next with
  | admitting caller => exact h.hand
  | stop call =>
      have hready := h.ready Frame.noConfusion
      obtain ⟨hhanded, hran, hadmitted, hstopped, hstopping, hattempted, hcalled, -, hvalid,
        htruthful⟩ := h
      unfold Registration.removed
      constructor
      case unready => exact (absurd · hready)
      all_goals simp at * <;> grind
  | fail => exact h.pop Frame.noConfusion rfl rfl

/-- The hook has returned a function. -/
theorem Inv.becomesReady (h : (s.push .delegating).Inv) :
  Inv { s with ready := true }
  := by
  obtain ⟨hhanded, hran, hadmitted, hstopped, hstopping, hattempted, hcalled, hunready, hvalid,
    htruthful⟩ := h
  constructor
  all_goals simp at * <;> grind

/-- The hook has thrown, or has not returned a function. -/
theorem Inv.becomesInvalid (h : (s.push .delegating).Inv) :
  Inv { s with state := .invalid, bufferedAdmission := false }
  := by
  obtain ⟨hhanded, hran, hadmitted, hstopped, hstopping, hattempted, hcalled, hunready, hvalid,
    htruthful⟩ := h
  constructor
  all_goals simp at * <;> grind

/-- The end of a call of the `stop` of the hook is recorded. -/
theorem Inv.note (h : s.Inv) {call : ℕ} {event : Event}
    (hevent : (∃ isTrue, event = .delegateStopped call isTrue) ∨ event = .stopThrew call) :
  (s.log event).Inv
  := by
  obtain ⟨hhanded, hran, hadmitted, hstopped, hstopping, hattempted, hcalled, hunready, hvalid,
    htruthful⟩ := h
  obtain ⟨isTrue, rfl⟩ | rfl := hevent
  all_goals
    constructor
    case called => exact fun h => List.mem_cons_of_mem _ (hcalled h)
    case unready => exact hunready
    case valid => exact hvalid
    all_goals simpa

/-- While the `stop` of the hook is called, nothing has stopped the registration. -/
theorem Inv.open_delegateStop {call : ℕ} (h : (s.push (.stopping call)).Inv) :
  s.route = .delegate ∧ s.stopAttempted = true ∧ s.state ≠ .stopped ∧ openDelegateStops s.stack = 0
  := by
  have hstopping := h.stopping
  have hopen : openDelegateStops (s.push (.stopping call)).stack = openDelegateStops s.stack + 1 :=
    openDelegateStops_cons _ _
  split at hstopping
  · rename_i hclaimed
    exact ⟨hclaimed.1, hclaimed.2.1, hclaimed.2.2, by omega⟩
  · omega

/-- The end of a call of the `stop` of the hook stops the registration. -/
theorem Inv.stops {call : ℕ} (h : (s.push (.stopping call)).Inv) (hpending : s.state = .pending)
    {event : Event} (hevent : event = .stopReturned call true ∨ event = .stopThrew call) :
  ({ s with state := .stopped }.log event).Inv
  := by
  obtain ⟨-, hattempted, -, hopen⟩ := h.open_delegateStop
  have hready := h.ready Frame.noConfusion
  have hcalls : 0 < s.stopCalls := h.attempted (.inl hattempted)
  obtain ⟨hhanded, hran, hadmitted, hstopped, -, -, hcalled, hunready, hvalid, htruthful⟩ :=
    h.pop Frame.noConfusion rfl rfl
  obtain rfl | rfl := hevent
  all_goals
    constructor
    case attempted => exact fun _ => hcalls
    case unready => exact (absurd · hready)
    all_goals simp [hpending, hopen] at * <;> grind

theorem Inv.resume {value : Value} {frame : Frame} (h : (s.push frame).Inv) :
  (s.resume value frame).Inv
  := by
  cases frame with
  | delegating =>
      unfold Registration.resume
      dsimp only
      split
      · split
        · exact h.becomesReady.admitCallback _
        · exact h.becomesReady.returns (fun hunready => Bool.noConfusion hunready.2)
      · exact h.becomesInvalid
  | adding =>
      exact (h.pop Frame.noConfusion rfl rfl).push (h.ready Frame.noConfusion) Frame.noConfusion
        rfl rfl rfl
  | checking =>
      have hpop := h.pop Frame.noConfusion rfl rfl
      unfold Registration.resume
      dsimp only
      split
      · exact hpop.admitCallback _
      · exact hpop.returns (h.ready Frame.noConfusion)
  | removing next => exact h.removed
  | running caller =>
      exact (h.pop Frame.noConfusion rfl rfl).admitReturned (h.ready Frame.noConfusion) caller
  | stopping call =>
      obtain ⟨hroute, hattempted, hstate, hopen⟩ := h.open_delegateStop
      have hready := h.ready Frame.noConfusion
      have hpop := h.pop Frame.noConfusion rfl rfl
      have hnoted : (s.log (.delegateStopped call value.isTrue)).Inv := hpop.note (.inl ⟨_, rfl⟩)
      unfold Registration.resume
      dsimp only
      split
      · rename_i hpending
        apply hnoted.refuse (.inl (List.mem_cons_of_mem _ (mem_of_admissions _ _)))
        rw [hpop.admitted, if_pos]
        cases hs : s.state with
        | pending => exact absurd hs hpending
        | admitted => rfl
        | stopped => exact absurd hs hstate
        | invalid => exact absurd hs (hpop.valid hready).2
      · split
        · rename_i hvalue
          apply hnoted.refuse (.inr (.inr ⟨hroute, _⟩))
          simp at hvalue
          simp [hvalue]
        · have hstopping :
              ((s.log (.delegateStopped call value.isTrue)).push (.stopping call)).Inv :=
            h.note (.inl ⟨_, rfl⟩)
          exact hstopping.stops (not_not.1 ‹_›) (.inl rfl)

theorem Inv.fail {frame : Frame} (h : (s.push frame).Inv) :
  (s.fail frame).Inv
  := by
  have hfails : frame ≠ .delegating → frame.isAdmission = false → frame.isTrueStop = false →
      (s.removeListener .fail (fun s => s)).Inv := by
    intro hframe hadmission hstop
    have hpop := h.pop hframe hadmission hstop
    exact (hpop.push (h.ready hframe) Frame.noConfusion rfl rfl rfl).removeListener hpop
  cases frame with
  | delegating => exact h.becomesInvalid
  | adding | checking => exact hfails Frame.noConfusion rfl rfl
  | removing next => exact h.removed
  | running caller =>
      unfold Registration.fail
      dsimp only
      split
      · exact hfails Frame.noConfusion rfl rfl
      · exact h.pop Frame.noConfusion rfl rfl
  | stopping call =>
      unfold Registration.fail
      dsimp only
      split
      · rename_i hpending
        exact h.stops hpending (.inr rfl)
      · exact (h.pop Frame.noConfusion rfl rfl).note (.inr rfl)

/-- The function is run from the microtask queue. -/
theorem Inv.runs (h : s.Inv) (hstack : s.stack = []) (hmicrotasks : 0 < s.microtasks) :
  (({ s with microtasks := s.microtasks - 1 }.log .ran).push (.running .microtask)).Inv
  := by
  obtain ⟨hhanded, hran, hadmitted, hstopped, hstopping, hattempted, hcalled, hunready, hvalid,
    htruthful⟩ := h
  constructor
  all_goals simp [hstack] at * <;> grind

/-- A step keeps what holds of a registration. -/
theorem Inv.step {s' : Registration} {act : Act} (h : s.Inv) (hstep : s.step act = some s') :
  s'.Inv
  := by
  cases act with
  | callback =>
      simp only [Registration.step, Option.ite_none_right_eq_some, Option.some.injEq] at hstep
      obtain ⟨-, rfl⟩ := hstep
      exact h.admitCallback .outside
  | stop =>
      simp only [Registration.step, Option.ite_none_right_eq_some, Option.some.injEq] at hstep
      obtain ⟨hreturned, rfl⟩ := hstep
      exact h.stop hreturned
  | returns value =>
      cases hstack : s.stack with
      | nil => simp [Registration.step, hstack] at hstep
      | cons frame stack =>
          simp only [Registration.step, hstack, Option.some.injEq] at hstep
          subst hstep
          apply Inv.resume
          rw [Registration.push, ← hstack]
          exact h
  | throws =>
      cases hstack : s.stack with
      | nil => simp [Registration.step, hstack] at hstep
      | cons frame stack =>
          simp only [Registration.step, hstack, Option.some.injEq] at hstep
          subst hstep
          apply Inv.fail
          rw [Registration.push, ← hstack]
          exact h
  | microtask =>
      simp only [Registration.step, Option.ite_none_right_eq_some, Option.some.injEq] at hstep
      obtain ⟨⟨hstack, hmicrotasks⟩, rfl⟩ := hstep
      exact h.runs hstack hmicrotasks

end Registration

theorem inv_registered (route : Route) (queued : Bool) :
  (registered route queued).Inv
  := by
  cases route with
  | aborted =>
      apply Registration.Inv.admitCallback
      constructor
      all_goals simp [Registration.Unready, Truthful]
  | _ =>
      constructor
      all_goals simp [registered, Registration.push, Registration.Unready, Truthful,
        Frame.isAdmission, Frame.isTrueStop, Frame.isDelegateStop]

/-! ### Registrations in any hands -/

theorem Reachable.inv {methods : Methods} {queued : Bool} {s : Registration}
    (h : Reachable methods queued s) :
  s.Inv
  := by
  induction h with
  | registered => exact inv_registered _ _
  | step _ hstep ih => exact ih.step hstep

namespace Registration

variable {s : Registration}

theorem hand_route (caller : Caller) :
  (s.hand caller).route = s.route
  := by
  unfold hand
  split
  · cases caller <;> rfl
  · rfl

theorem removeListener_route {next : Removal} {done : Registration → Registration}
    (hdone : ∀ s, (done s).route = s.route) :
  (s.removeListener next done).route = s.route
  := by
  unfold removeListener
  split
  · exact hdone s
  · rfl

theorem admit_route (caller : Caller) :
  (s.admitCallback caller).route = s.route
  := by
  unfold admitCallback
  split
  · rfl
  · split
    · cases caller <;> rfl
    · split
      · exact hand_route caller
      · exact removeListener_route (fun _ => hand_route caller)

theorem stop_route :
  s.stop.route = s.route
  := by
  unfold stop
  dsimp only
  split
  · split <;> rfl
  · split
    · rfl
    · exact removeListener_route (fun _ => rfl)

theorem removed_route (next : Removal) :
  (s.removed next).route = s.route
  := by
  cases next with
  | admitting caller => exact hand_route caller
  | stop | fail => rfl

theorem resume_route (value : Value) (frame : Frame) :
  (s.resume value frame).route = s.route
  := by
  cases frame with
  | delegating =>
      unfold resume
      dsimp only
      split
      · split
        · exact admit_route _
        · rfl
      · rfl
  | adding => rfl
  | checking =>
      unfold resume
      dsimp only
      split
      · exact admit_route _
      · rfl
  | removing next => exact removed_route next
  | running caller => cases caller <;> rfl
  | stopping call =>
      unfold resume
      dsimp only
      split
      · rfl
      · split <;> rfl

theorem fail_route (frame : Frame) :
  (s.fail frame).route = s.route
  := by
  cases frame with
  | delegating => rfl
  | adding | checking => exact removeListener_route (fun _ => rfl)
  | removing next => exact removed_route next
  | running caller =>
      unfold fail
      dsimp only
      split
      · exact removeListener_route (fun _ => rfl)
      · rfl
  | stopping call =>
      unfold fail
      dsimp only
      split <;> rfl

/-- A registration keeps its route. -/
theorem step_route {s' : Registration} {act : Act} (hstep : s.step act = some s') :
  s'.route = s.route
  := by
  unfold step at hstep
  cases act with
  | callback =>
      simp only [Option.ite_none_right_eq_some, Option.some.injEq] at hstep
      obtain ⟨-, rfl⟩ := hstep
      exact admit_route .outside
  | stop =>
      simp only [Option.ite_none_right_eq_some, Option.some.injEq] at hstep
      obtain ⟨-, rfl⟩ := hstep
      exact stop_route
  | returns value =>
      cases hstack : s.stack with
      | nil => simp [hstack] at hstep
      | cons frame stack =>
          simp only [hstack, Option.some.injEq] at hstep
          subst hstep
          exact resume_route value frame
  | throws =>
      cases hstack : s.stack with
      | nil => simp [hstack] at hstep
      | cons frame stack =>
          simp only [hstack, Option.some.injEq] at hstep
          subst hstep
          exact fail_route frame
  | microtask =>
      simp only [Option.ite_none_right_eq_some, Option.some.injEq] at hstep
      obtain ⟨-, rfl⟩ := hstep
      rfl

/-- Steps one after the other. -/
def run (s : Registration) : List Act → Option Registration
  | [] => some s
  | act :: acts => (s.step act).bind (fun s => s.run acts)

end Registration

theorem Reachable.route {methods : Methods} {queued : Bool} {s : Registration}
    (h : Reachable methods queued s) :
  s.route = registerContextAfterFunc methods
  := by
  induction h with
  | registered =>
      generalize registerContextAfterFunc methods = route
      cases route with
      | aborted => exact Registration.admit_route _
      | _ => rfl
  | step _ hstep ih => rw [Registration.step_route hstep, ih]

theorem Reachable.run {methods : Methods} {queued : Bool} {s s' : Registration} {acts : List Act}
    (h : Reachable methods queued s) (hrun : s.run acts = some s') :
  Reachable methods queued s'
  := by
  induction acts generalizing s with
  | nil =>
      cases hrun
      exact h
  | cons act acts ih =>
      obtain ⟨s₁, hstep, hrun⟩ := Option.bind_eq_some_iff.1 hrun
      exact ih (h.step hstep) hrun

/-- Whatever is called in between, a function is admitted at most once and run at most once, at most
one `stop` returns `true` and then the function is neither admitted nor run, and a `stop` returns
`false` for a reason. -/
theorem afterFunc_once {methods : Methods} {queued : Bool} {s : Registration}
    (h : Reachable methods queued s) :
  s.events.count .admitted ≤ 1 ∧
    s.events.count .ran ≤ s.events.count .admitted ∧
    s.events.countP Event.isTrueStop ≤ 1 ∧
    (∀ call, .stopReturned call true ∈ s.events → .admitted ∉ s.events ∧ .ran ∉ s.events) ∧
    ∀ call later earlier, s.events = later ++ .stopReturned call false :: earlier →
      .admitted ∈ earlier ∨ (∃ other < call, .stopCalled other ∈ earlier) ∨
        (registerContextAfterFunc methods = .delegate ∧ .delegateStopped call false ∈ earlier)
  := by
  obtain ⟨hhanded, hran, hadmitted, hstopped, -, -, -, -, -, htruthful⟩ := h.inv
  have hruns : runs s.events ≤ admissions s.events := by omega
  have honce : admissions s.events ≤ 1 := by
    rw [hadmitted]
    split <;> omega
  have htrue : trueStops s.events ≤ 1 := by
    split at hstopped <;> omega
  have hnone : ∀ call, .stopReturned call true ∈ s.events → admissions s.events = 0 := by
    intro call hmem
    have hpos : 0 < trueStops s.events := List.countP_pos_iff.2 ⟨_, hmem, rfl⟩
    have hstate : s.state = .stopped := by
      by_contra hstate
      rw [if_neg hstate] at hstopped
      omega
    rw [hadmitted, hstate]
    rfl
  refine ⟨honce, hruns, htrue, ?_, ?_⟩
  · intro call hmem
    have hzero := hnone call hmem
    constructor
    · exact List.count_eq_zero.1 hzero
    · exact List.count_eq_zero.1 (Nat.le_zero.1 (hzero ▸ hruns))
  · intro call later earlier hevents
    rw [hevents] at htruthful
    rw [← h.route]
    exact htruthful.justified

/-- The function is admitted within the `stop` of a hook. -/
def reentrantStop : List Act :=
  [.returns ⟨true, true, false⟩, .stop, .callback, .returns ⟨false, true, true⟩, .microtask]

theorem afterFunc_once_reentrantStop :
  ∃ s, Reachable ⟨some false, false, true⟩ true s ∧
    s.events = [.ran, .stopReturned 0 false, .delegateStopped 0 true, .handed, .admitted,
      .stopCalled 0] ∧
    s.events.count .admitted ≤ 1
  := by
  have hrun : ∃ s, (registered .delegate true).run reentrantStop = some s ∧
      s.events = [.ran, .stopReturned 0 false, .delegateStopped 0 true, .handed, .admitted,
        .stopCalled 0] := ⟨_, rfl, rfl⟩
  obtain ⟨s, hrun, hevents⟩ := hrun
  have hreachable : Reachable ⟨some false, false, true⟩ true s := Reachable.registered.run hrun
  exact ⟨s, hreachable, hevents, (afterFunc_once hreachable).1⟩

end AfterFunc
