import GoLike.Registry.Mdns.SnapshotQueueMoves

/-!
# Runs of a snapshot queue

In every run the queue is bounded, no waiter waits beside a value unless its cancellation has won,
and every call is settled once, at the latest when the queue has ended and the operations that were
open have returned.
-/

namespace Registry.Mdns.SnapshotQueue

variable {α ε : Type} {o : Options ε} {s s' : Queue α ε} {act : Act α ε}

/-! ### The owner -/

theorem Owned.move (h : Owned s) (hmove : Move o s act s') :
  Owned s'
  := by
  unfold Owned at h ⊢
  cases hmove with
  | overflowed => simp
  | ended _ _ _ hfailure | endedAtOnce _ _ _ hfailure => exact hfailure
  | _ => exact h

theorem isSome_ownerError (howned : Owned s) :
  (s.ownerError o).isSome = true ↔ s.state ≠ .running
  := by
  rw [ne_eq, ← howned.ownerError_eq_none o, Option.isSome_iff_ne_none]

/-! ### Values and waiters -/

/-- The loop of `push` is on top of the stack, and the queue is running. -/
structure Top (s : Queue α ε) : Prop where
  inner : ∀ value, .pushing value ∉ s.stack.tail
  running : ∀ value, .pushing value ∈ s.stack → s.state = .running

theorem Top.notMem_of_isOutside (h : Top s) (houtside : s.isOutside = true) (value : α) :
  .pushing value ∉ s.stack
  := by
  have hinner := h.inner value
  rw [Queue.isOutside] at houtside
  cases hstack : s.stack with
  | nil => exact List.not_mem_nil
  | cons frame below =>
      rw [hstack] at hinner houtside
      intro hmem
      obtain rfl | hmem := List.mem_cons.1 hmem
      · cases houtside
      · exact hinner hmem

theorem Top.notMem_below {frame : Frame α ε} {below : List (Frame α ε)} (h : Top s)
    (hstack : s.stack = frame :: below) (value : α) :
  .pushing value ∉ below
  := by
  have hinner := h.inner value
  rw [hstack] at hinner
  exact hinner

theorem Top.of_notMem (h : ∀ value, .pushing value ∉ s.stack) :
  Top s
  where
  inner value hmem := h value (List.mem_of_mem_tail hmem)
  running value hmem := absurd hmem (h value)

theorem Top.move (howned : Owned s) (h : Top s) (hmove : Move o s act s') :
  Top s'
  := by
  have hrunning := howned.ownerError_eq_none o
  have houter := h.notMem_of_isOutside
  have hbelow : ∀ {frame : Frame α ε} {below : List (Frame α ε)}, s.stack = frame :: below →
      ∀ value, .pushing value ∉ below := fun hstack => h.notMem_below hstack
  cases hmove with
  | retried hstack howner =>
      exact ⟨hbelow hstack, fun _ _ => hrunning.1 howner⟩
  | pushed houtside howner => exact ⟨houter houtside, fun _ _ => hrunning.1 howner⟩
  | ignored => exact h
  | _ => apply Top.of_notMem; intro value; grind

/-- The bound of the queue, and its two sides. -/
structure Sides (o : Options ε) (s : Queue α ε) : Prop where
  bound : s.values.length ≤ o.bufferSize
  sided : s.values ≠ [] → s.waiters = []
  cleared : s.state ≠ .running → s.values = []

theorem Sides.move (howned : Owned s) (htop : Top s) (h : Sides o s) (hmove : Move o s act s') :
  Sides o s'
  := by
  obtain ⟨hbound, hsided, hcleared⟩ := h
  have hrunning := howned.ownerError_eq_none o
  have hpushing := htop.running
  cases hmove with
  | queued hstack hwaiters hroom =>
      have hstate : s.state = .running := hpushing _ (by rw [hstack]; exact List.mem_cons_self)
      refine ⟨?_, fun _ => hwaiters, fun hended => absurd hstate hended⟩
      rw [List.length_append, List.length_singleton]
      exact hroom
  | parked hstack howner hvalues =>
      exact ⟨hbound, fun hne => absurd hvalues hne, fun _ => hvalues⟩
  | _ => constructor <;> grind

/-- A waiter of a running queue is in the list of waiters, or its cancellation has won. -/
def Parked (s : Queue α ε) : Prop :=
  s.state = .running → ∀ call, s.waiterStates call = some .waiting →
    call ∈ s.waiters ∨ .canceling call ∈ s.stack

theorem Parked.move (howned : Owned s) (h : Parked s) (hmove : Move o s act s') :
  Parked s'
  := by
  have hrunning := howned.ownerError_eq_none o
  have hended := isSome_ownerError (o := o) howned
  unfold Parked at *
  cases hmove with
  | _ => grind [Function.update_apply]

/-! ### Open operations -/

/-- The frame is that of an operation that is counted. -/
def Frame.isOperation : Frame α ε → Bool
  | rejectingAll _ _ => false
  | rejecting _ _ => false
  | _ => true

/-- Every open operation is counted. -/
def Counted (s : Queue α ε) : Prop := s.activeOperations = s.stack.countP Frame.isOperation

theorem Counted.move (h : Counted s) (hmove : Move o s act s') :
  Counted s'
  := by
  unfold Counted at *
  cases hmove with
  | unadmitted hstack hframe =>
    obtain rfl | rfl := hframe <;>
    simp [*, List.countP_cons, Frame.isOperation] at *
  | _ => simp [*, List.countP_cons, Frame.isOperation] at *

/-! ### Settlements -/

/-- The frame is that of a call of `next` that has no waiter yet. -/
def Frame.opens (call : ℕ) : Frame α ε → Bool
  | entering c => c = call
  | registering c => c = call
  | _ => false

/-- The frame has claimed the waiter of a call. -/
def Frame.claims (call : ℕ) : Frame α ε → Bool
  | delivering c _ _ => c = call
  | rejecting c _ => c = call
  | _ => false

def Event.settles (call : ℕ) : Event α ε → Bool
  | resolved c _ => c = call
  | rejected c _ => c = call
  | _ => false

/-- How often a call was settled. -/
def settlements (s : Queue α ε) (call : ℕ) : ℕ := s.events.countP (Event.settles call)

/-- A call without a waiter is settled, or it is open; the waiter of a call is owned until the call
is settled, and claimed by one frame at most. -/
structure Account (s : Queue α ε) (call : ℕ) : Prop where
  fresh : s.waiterStates call = none →
    settlements s call + s.stack.countP (Frame.opens call) = (if call < s.calls then 1 else 0) ∧
      s.stack.countP (Frame.claims call) = 0 ∧ call ∉ s.ownedWaiters
  held : ∀ state, s.waiterStates call = some state →
    call < s.calls ∧ s.stack.countP (Frame.opens call) = 0 ∧
      settlements s call = (if state = .waiting ∨ state = .claiming then 0 else 1) ∧
      s.stack.countP (Frame.claims call) = (if state = .claiming then 1 else 0) ∧
      (call ∈ s.ownedWaiters ↔ state = .waiting ∨ state = .claiming)

theorem Account.move {call : ℕ} (h : Account s call) (hmove : Move o s act s') :
  Account s' call
  := by
  obtain ⟨hfresh, hheld⟩ := h
  cases hstate : s.waiterStates call with
  | none =>
      obtain ⟨hcount, hclaims, howned⟩ := hfresh hstate
      clear hfresh hheld
      unfold settlements at hcount
      cases hmove with
      | ignored => constructor <;> grind [settlements]
      | ended => constructor <;> grind [settlements, Event.settles]
      | unadmitted hstack hframe =>
          rw [hstack] at hcount hclaims
          obtain rfl | rfl := hframe <;> constructor <;> unfold settlements <;>
            simp only [List.countP_cons, Frame.opens, Frame.claims, Event.settles]
              at hcount hclaims ⊢ <;>
            grind
      | _ =>
          constructor <;> unfold settlements <;>
            simp only [*, List.countP_cons, Frame.opens, Frame.claims, Event.settles,
              Function.update_apply] at hcount hclaims ⊢ <;>
            grind
  | some state =>
      obtain ⟨hcalls, hcount, hevents, hclaims, howned⟩ := hheld state hstate
      clear hfresh hheld
      unfold settlements at hevents
      cases hmove with
      | ignored => constructor <;> grind [settlements]
      | ended => constructor <;> grind [settlements, Event.settles]
      | unadmitted hstack hframe =>
          rw [hstack] at hcount hclaims
          obtain rfl | rfl := hframe <;> constructor <;> unfold settlements <;>
            simp only [List.countP_cons, Frame.opens, Frame.claims, Event.settles]
              at hcount hclaims ⊢ <;>
            grind
      | _ =>
          constructor <;> unfold settlements <;>
            simp only [*, List.countP_cons, Frame.opens, Frame.claims, Event.settles,
              Function.update_apply] at hcount hclaims ⊢ <;>
            grind

theorem Account.state_of_claims {call : ℕ} (h : Account s call)
    (hclaims : 0 < s.stack.countP (Frame.claims call)) :
  s.waiterStates call = some .claiming
  := by
  cases hstate : s.waiterStates call with
  | none =>
      have hnone := (h.fresh hstate).2.1
      omega
  | some state =>
      obtain ⟨-, -, -, hcount, -⟩ := h.held state hstate
      split at hcount
      · rename_i heq
        rw [heq]
      · omega

/-! ### The publication of the end -/

/-- The frame is that of the loop of `rejectWaiters`, or in it. -/
def Frame.isRejection : Frame α ε → Bool
  | rejectingAll _ _ => true
  | rejecting _ _ => true
  | _ => false

def Frame.isLoop : Frame α ε → Bool
  | rejectingAll _ _ => true
  | _ => false

/-- The frame may be on the stack of a queue whose end is published. -/
def Frame.isLate : Frame α ε → Bool
  | rejectingAll _ _ => true
  | rejecting _ _ => true
  | canceling _ => true
  | returning => true
  | _ => false

/-- A frame of the stack is going to settle the waiter of a call. -/
def Covers (stack : List (Frame α ε)) (call : ℕ) : Prop :=
  (∃ error, .rejecting call error ∈ stack) ∨ .canceling call ∈ stack ∨
    ∃ error rest, .rejectingAll error rest ∈ stack ∧ call ∈ rest

/-- The end of the queue is published once, by the first operation that returns as the last one. -/
structure Publication (s : Queue α ε) : Prop where
  idle : s.publishingTerminal = false → s.stack.any Frame.isRejection = false
  quiet : s.publishingTerminal = true ∨ s.terminalPublished = true →
    s.state ≠ .running ∧ s.stack.all Frame.isLate = true
  bottom : s.stack.Pairwise (fun frame _ => frame.isLoop = false)
  looping : s.publishingTerminal = true → s.stack.any Frame.isLoop = true
  covered : s.publishingTerminal = true → ∀ call ∈ s.ownedWaiters, Covers s.stack call
  done : s.terminalPublished = true → s.ownedWaiters = [] ∧ s.publishingTerminal = false
  due : s.state ≠ .running →
    s.publishingTerminal = true ∨ s.terminalPublished = true ∨ 0 < s.activeOperations

/-- When no operation is counted, none is open. -/
theorem stack_eq_nil (hidle : s.stack.any Frame.isRejection = false) (hcounted : Counted s)
    (hlast : s.activeOperations = 0) :
  s.stack = []
  := by
  unfold Counted at hcounted
  cases hstack : s.stack with
  | nil => rfl
  | cons frame below =>
      rw [hstack, List.any_cons, Bool.or_eq_false_iff] at hidle
      rw [hlast, hstack] at hcounted
      cases frame with
      | rejectingAll | rejecting => cases hidle.1
      | _ =>
          rw [List.countP_cons_of_pos rfl] at hcounted
          omega

/-- Below the last operation there is nothing. -/
theorem below_eq_nil {below : List (Frame α ε)} (hstack : s.stack = .returning :: below)
    (hidle : s.stack.any Frame.isRejection = false) (hcounted : Counted s)
    (hlast : s.activeOperations - 1 = 0) :
  below = []
  := by
  let rest : Queue α ε := { s with activeOperations := s.activeOperations - 1, stack := below }
  have hrest : rest.stack = [] := by
    apply stack_eq_nil _ _ hlast
    · rw [hstack, List.any_cons, Bool.or_eq_false_iff] at hidle
      exact hidle.2
    · unfold Counted at hcounted ⊢
      rw [hstack, List.countP_cons_of_pos rfl] at hcounted
      exact (congrArg (· - 1) hcounted).trans (Nat.add_sub_cancel _ _)
  exact hrest

theorem Publication.idle_move (h : Publication s) (hmove : Move o s act s') :
  s'.publishingTerminal = false → s'.stack.any Frame.isRejection = false
  := by
  obtain ⟨hidle, hquiet, hbottom, -, hcovered, hdone, hdue⟩ := h
  cases hmove with
  | published hstack =>
    rw [hstack, List.pairwise_cons] at hbottom
    intro _
    rw [List.any_eq_false]
    intro frame hmem
    cases hbottom.1 frame hmem
  | _ => grind [Frame.isRejection]

theorem Publication.quiet_move (howned : Owned s) (h : Publication s) (hcounted : Counted s)
    (hmove : Move o s act s') :
  s'.publishingTerminal = true ∨ s'.terminalPublished = true →
    s'.state ≠ .running ∧ s'.stack.all Frame.isLate = true
  := by
  have hrunning := howned.ownerError_eq_none o
  have hempty := stack_eq_nil (s := s)
  obtain ⟨hidle, hquiet, hbottom, -, hcovered, hdone, hdue⟩ := h
  cases hmove with
  | published hstack =>
      have hpublishing : s.publishingTerminal = true := by grind [Frame.isRejection]
      grind [Frame.isLate]
  | publishes hstack hstate hunpublished hfalse hlast =>
      rw [below_eq_nil hstack (hidle hfalse) hcounted hlast]
      grind [Frame.isLate]
  | endedAtOnce _ _ _ _ _ _ hfalse hlast =>
      have hnil := hempty (hidle hfalse) hcounted hlast
      rw [hnil]
      grind [Frame.isLate]
  | _ => grind [Frame.isLate]

theorem Publication.bottom_move (h : Publication s) (hcounted : Counted s)
    (hmove : Move o s act s') :
  s'.stack.Pairwise (fun frame _ => frame.isLoop = false)
  := by
  have hempty := stack_eq_nil (s := s)
  obtain ⟨hidle, hquiet, hbottom, -, hcovered, hdone, hdue⟩ := h
  clear hquiet hcovered hdone hdue
  cases hmove with
  | published hstack => grind [Frame.isLoop]
  | publishes hstack hstate hunpublished hfalse hlast =>
      rw [below_eq_nil hstack (hidle hfalse) hcounted hlast]
      grind [Frame.isLoop]
  | endedAtOnce _ _ _ _ _ _ hfalse hlast =>
      have hnil := hempty (hidle hfalse) hcounted hlast
      rw [hnil]
      grind [Frame.isLoop]
  | _ => grind [Frame.isLoop, List.pairwise_cons]

/-- A waiter that is owned and does not wait is about to be rejected. -/
theorem Publication.rejecting_of_owned (h : Publication s)
    (hpublishing : s.publishingTerminal = true) {call : ℕ} (haccount : Account s call)
    (howned : call ∈ s.ownedWaiters) (hstate : s.waiterStates call ≠ some .waiting) :
  ∃ error, .rejecting call error ∈ s.stack
  := by
  cases hcase : s.waiterStates call with
  | none => exact absurd howned (haccount.fresh hcase).2.2
  | some state =>
      obtain ⟨-, -, -, hclaims, hmem⟩ := haccount.held state hcase
      have hclaiming : state = .claiming := by
        obtain rfl | rfl := hmem.1 howned
        · exact absurd hcase hstate
        · rfl
      rw [if_pos hclaiming] at hclaims
      obtain ⟨frame, hframe, hcall⟩ :=
        List.countP_pos_iff.1 (Nat.lt_of_lt_of_eq Nat.zero_lt_one hclaims.symm)
      have hlate := List.all_eq_true.1 (h.quiet (.inl hpublishing)).2 frame hframe
      cases frame with
      | rejecting c error =>
          rw [← of_decide_eq_true hcall]
          exact ⟨error, hframe⟩
      | delivering => cases hlate
      | _ => cases hcall

theorem Publication.covered_move (howned : Owned s) (haccount : ∀ call, Account s call)
    (h : Publication s) (hmove : Move o s act s') :
  s'.publishingTerminal = true → ∀ call ∈ s'.ownedWaiters, Covers s'.stack call
  := by
  have hrunning := howned.ownerError_eq_none o
  have hrejecting := fun hpublishing call => h.rejecting_of_owned hpublishing (haccount call)
  obtain ⟨hidle, hquiet, hbottom, -, hcovered, hdone, hdue⟩ := h
  clear hidle hbottom hdone hdue
  unfold Covers at *
  cases hmove with
  | publishes | endedAtOnce =>
      intro _ call hcall
      exact .inr (.inr ⟨_, _, List.mem_cons_self, hcall⟩)
  | skipped | settled =>
      intro hpublishing call hcall
      have hreject := hrejecting hpublishing call hcall
      grind
  | _ => grind [Frame.isLate]

theorem Publication.looping_move (h : Publication s) (hmove : Move o s act s') :
  s'.publishingTerminal = true → s'.stack.any Frame.isLoop = true
  := by
  have hlooping := h.looping
  cases hmove with
  | published => exact fun hfalse => nomatch hfalse
  | unadmitted hstack hframe => obtain rfl | rfl := hframe <;> grind [Frame.isLoop]
  | _ => grind [Frame.isLoop]

theorem Publication.done_move (howned : Owned s) (h : Publication s) (hmove : Move o s act s') :
  s'.terminalPublished = true → s'.ownedWaiters = [] ∧ s'.publishingTerminal = false
  := by
  have hrunning := howned.ownerError_eq_none o
  obtain ⟨hidle, hquiet, hbottom, -, hcovered, hdone, hdue⟩ := h
  cases hmove with
  | published hstack =>
      rw [hstack, List.pairwise_cons] at hbottom
      have hbelow := List.eq_nil_iff_forall_not_mem.2
        (fun frame hframe => Bool.noConfusion (hbottom.1 frame hframe))
      rw [hbelow] at hstack
      have hpublishing : s.publishingTerminal = true := by grind [Frame.isRejection]
      intro _
      refine ⟨?_, rfl⟩
      rw [List.eq_nil_iff_forall_not_mem]
      intro call hcall
      have hcovers := hcovered hpublishing call hcall
      rw [hstack, Covers] at hcovers
      simp at hcovers
  | _ => grind [Frame.isLate]

theorem Publication.due_move (howned : Owned s) (h : Publication s) (hcounted : Counted s)
    (hmove : Move o s act s') :
  s'.state ≠ .running →
    s'.publishingTerminal = true ∨ s'.terminalPublished = true ∨ 0 < s'.activeOperations
  := by
  have hrunning := howned.ownerError_eq_none o
  have hdue := h.due
  cases hmove with
  | overflowed hstack =>
      intro _
      unfold Counted at hcounted
      rw [hstack, List.countP_cons_of_pos rfl] at hcounted
      right
      right
      exact Nat.lt_of_lt_of_eq (Nat.succ_pos _) hcounted.symm
  | _ => grind

theorem Publication.move (howned : Owned s) (hcounted : Counted s)
    (haccount : ∀ call, Account s call) (h : Publication s) (hmove : Move o s act s') :
  Publication s' where
  idle := h.idle_move hmove
  quiet := h.quiet_move howned hcounted hmove
  bottom := h.bottom_move hcounted hmove
  looping := h.looping_move hmove
  covered := h.covered_move howned haccount hmove
  done := h.done_move howned hmove
  due := h.due_move howned hcounted hmove


/-! ### What happens after the end -/

/-- The event may follow the end of the queue. -/
def Event.isAfter : Event α ε → Bool
  | called _ => true
  | rejected _ _ => true
  | published => true
  | _ => false

/-- The queue has ended with an error: no snapshot is taken or delivered afterwards, and each later
call is rejected with the error. -/
def Ended (error : ε) (events : List (Event α ε)) : Prop :=
  ∃ later earlier, events = later ++ .terminal error :: earlier ∧
    (∀ e, .terminal e ∉ earlier) ∧ (∀ event ∈ later, event.isAfter = true) ∧
    ∀ call, .called call ∈ later →
      .rejected call error ∈ later ∧ ∀ e, .rejected call e ∈ later → e = error

namespace Ended

variable {error e : ε} {events : List (Event α ε)} {call : ℕ}

theorem created (h : ∀ e, .terminal e ∉ events) :
  Ended error (.terminal error :: events)
  := by
  refine ⟨[], events, rfl, h, ?_, ?_⟩
  · rintro event ⟨⟩
  · rintro call ⟨⟩

theorem published (h : Ended error events) :
  Ended error (.published :: events)
  := by
  obtain ⟨later, earlier, rfl, hearlier, hlater, hcalls⟩ := h
  refine ⟨.published :: later, earlier, rfl, hearlier, ?_, ?_⟩
  · intro event hevent
    obtain rfl | hevent := List.mem_cons.1 hevent
    · rfl
    · exact hlater event hevent
  · intro call hcall
    grind

theorem refused (h : Ended error events) (hnew : ∀ e, .rejected call e ∉ events) :
  Ended error (.rejected call error :: .called call :: events)
  := by
  obtain ⟨later, earlier, rfl, hearlier, hlater, hcalls⟩ := h
  refine ⟨.rejected call error :: .called call :: later, earlier, rfl, hearlier, ?_, ?_⟩
  · grind [Event.isAfter]
  · grind

theorem rejected (h : Ended error events) (hcall : e = error ∨ ∀ e', .rejected call e' ∉ events) :
  Ended error (.rejected call e :: events)
  := by
  obtain ⟨later, earlier, rfl, hearlier, hlater, hcalls⟩ := h
  refine ⟨.rejected call e :: later, earlier, rfl, hearlier, ?_, ?_⟩
  · grind [Event.isAfter]
  · grind

end Ended

theorem not_rejected {call : ℕ} (h : settlements s call = 0) (e : ε) :
  .rejected call e ∉ s.events
  := by
  intro hmem
  have hsettles := List.countP_eq_zero.1 h _ hmem
  exact hsettles (decide_eq_true rfl)

/-- What has happened before and after the end. -/
structure History (o : Options ε) (s : Queue α ε) : Prop where
  running : s.state = .running → ∀ e, .terminal e ∉ s.events
  ended : ∀ error, s.ownerError o = some error → Ended error s.events

theorem ownerError_of_ended {error : ε} (hstate : s.state ≠ .running)
    (hfailure : s.failure.isSome = true ↔ s.state = .failed)
    (herror : s.failure.getD o.stoppedError = error) :
  s.ownerError o = some error
  := by
  unfold Queue.ownerError
  cases hfailed : s.failure with
  | some e =>
      rw [← herror, hfailed]
      rfl
  | none =>
      rw [hfailed] at herror hfailure
      cases hcase : s.state with
      | running => exact absurd hcase hstate
      | stopped =>
          rw [← herror]
          rfl
      | failed =>
          rw [hcase] at hfailure
          simp at hfailure

theorem Account.settlements_of_open {call : ℕ} (h : Account s call)
    (hstate : s.waiterStates call = some .waiting ∨ s.waiterStates call = some .claiming) :
  settlements s call = 0
  := by
  obtain hstate | hstate := hstate
  · exact (h.held _ hstate).2.2.1
  · exact (h.held _ hstate).2.2.1

theorem Account.settlements_of_new (h : Account s s.calls) :
  settlements s s.calls = 0
  := by
  cases hstate : s.waiterStates s.calls with
  | none =>
      have hcount := (h.fresh hstate).1
      rw [if_neg (Nat.lt_irrefl _)] at hcount
      omega
  | some state => exact absurd (h.held state hstate).1 (Nat.lt_irrefl _)

theorem History.move (howned : Owned s) (htop : Top s) (haccount : ∀ call, Account s call)
    (h : History o s) (hmove : Move o s act s') :
  History o s'
  := by
  have hrunning := howned.ownerError_eq_none o
  obtain ⟨hopen, hended⟩ := h
  cases hmove with
  | overflowed hstack =>
      have hrun := htop.running _ (by rw [hstack]; exact List.mem_cons_self)
      refine ⟨fun hstate => (by cases hstate), ?_⟩
      intro e he
      rw [← Option.some.inj he]
      exact .created (hopen hrun)
  | ended houtside howner hstate hfailure herror
  | endedAtOnce houtside howner hstate hfailure herror =>
    constructor
    · intro hrun
      exact absurd hrun hstate
    · intro e he
      rw [ownerError_of_ended hstate hfailure herror, Option.some.injEq] at he
      rw [← he]
      exact .created (hopen (hrunning.1 howner))
  | published => exact ⟨fun hrun e he => by grind, fun error he => (hended error he).published⟩
  | refused houtside howner =>
      refine ⟨fun hrun e he => by grind, ?_⟩
      intro error he
      rw [← Option.some.inj (howner.symm.trans he)]
      exact (hended _ howner).refused (not_rejected (haccount s.calls).settlements_of_new)
  | entered houtside howner | pushed houtside howner | taken hstack howner
  | given hstack howner =>
      refine ⟨fun hrun e he => by grind, ?_⟩
      intro error he
      cases howner.symm.trans he
  | unadmitted hstack hframe howner =>
      refine ⟨fun hrun e he => by grind, ?_⟩
      intro error he
      exact (hended error he).rejected (.inl (howner error he))
  | overtaken hstack howner =>
      refine ⟨fun hrun e he => by grind, ?_⟩
      intro error he
      exact (hended error he).rejected (.inl (Option.some.inj (howner.symm.trans he)))
  | rejected hstack =>
      refine ⟨fun hrun e he => by grind, ?_⟩
      intro error he
      apply (hended error he).rejected
      right
      apply not_rejected
      apply (haccount _).settlements_of_open
      right
      apply (haccount _).state_of_claims
      rw [hstack, List.countP_cons_of_pos (by simp [Frame.claims])]
      exact Nat.succ_pos _
  | abandoned hstack hstate =>
      refine ⟨fun hrun e he => by grind, ?_⟩
      intro error he
      apply (hended error he).rejected
      right
      exact not_rejected ((haccount _).settlements_of_open (.inl hstate))
  | _ => exact ⟨hopen, hended⟩

/-- The error of a queue that has ended stays the same. -/
theorem ownerError_move (htop : Top s) {error : ε} (h : s.ownerError o = some error)
    (howned : Owned s) (hmove : Move o s act s') :
  s'.ownerError o = some error
  := by
  have hrunning := howned.ownerError_eq_none o
  cases hmove with
  | overflowed hstack =>
      rw [hrunning.2 (htop.running _ (by rw [hstack]; exact List.mem_cons_self))] at h
      cases h
  | ended houtside howner | endedAtOnce houtside howner => cases howner.symm.trans h
  | _ => exact h

/-! ### All runs -/

/-- What holds in every run. -/
structure Inv (o : Options ε) (s : Queue α ε) : Prop where
  owned : Owned s
  top : Top s
  sides : Sides o s
  parked : Parked s
  counted : Counted s
  account : ∀ call, Account s call
  publication : Publication s
  history : History o s

theorem Inv.move (h : Inv o s) (hmove : Move o s act s') :
  Inv o s' where
  owned := h.owned.move hmove
  top := h.top.move h.owned hmove
  sides := h.sides.move h.owned h.top hmove
  parked := h.parked.move h.owned hmove
  counted := h.counted.move hmove
  account call := (h.account call).move hmove
  publication := h.publication.move h.owned h.counted h.account hmove
  history := h.history.move h.owned h.top h.account hmove

theorem inv_created :
  Inv o (newSnapshotQueue : Queue α ε)
  := by
  constructor
  · simp [Owned, newSnapshotQueue]
  · exact .of_notMem (fun _ => List.not_mem_nil)
  · exact ⟨Nat.zero_le _, fun _ => rfl, fun _ => rfl⟩
  · intro _ call hcall
    cases hcall
  · rfl
  · intro call
    constructor
    · intro _
      exact ⟨rfl, rfl, List.not_mem_nil⟩
    · intro state hstate
      cases hstate
  · constructor
    · exact fun _ => rfl
    · rintro (h | h)
      · cases h
      · cases h
    · exact List.Pairwise.nil
    · rintro ⟨⟩
    · rintro ⟨⟩
    · rintro ⟨⟩
    · intro hstate
      exact absurd rfl hstate
  · constructor
    · intro _ e
      exact List.not_mem_nil
    · rintro error ⟨⟩

theorem Reachable.inv {allowed : Queue α ε → Act α ε → Prop} (h : Reachable o allowed s) :
  Inv o s
  := by
  induction h with
  | created => exact inv_created
  | step h hallowed hstep ih => exact ih.move (move_of_step ih.owned hstep)

theorem Inv.settlements_le (h : Inv o s) (call : ℕ) :
  settlements s call ≤ 1
  := by
  have haccount := h.account call
  cases hstate : s.waiterStates call with
  | none =>
      have hcount := (haccount.fresh hstate).1
      split at hcount
      · omega
      · omega
  | some state =>
      have hcount := (haccount.held state hstate).2.2.1
      split at hcount
      · omega
      · omega

/-- When no operation of a queue that has ended is open, every call is settled. -/
theorem Inv.settlements_eq (h : Inv o s) (hended : s.state ≠ .running) (hidle : s.stack = [])
    {call : ℕ} (hcall : call < s.calls) :
  settlements s call = 1
  := by
  have hactive : s.activeOperations = 0 := by
    have hcounted := h.counted
    rw [Counted, hidle] at hcounted
    exact hcounted
  have hpublishing : s.publishingTerminal ≠ true := by
    intro htrue
    have hlooping := h.publication.looping htrue
    rw [hidle] at hlooping
    cases hlooping
  have hpublished : s.terminalPublished = true := by
    obtain hpublishing' | hpublished | hactive' := h.publication.due hended
    · exact absurd hpublishing' hpublishing
    · exact hpublished
    · omega
  have howned := (h.publication.done hpublished).1
  have haccount := h.account call
  cases hstate : s.waiterStates call with
  | none =>
      have hcount := (haccount.fresh hstate).1
      rw [hidle, if_pos hcall] at hcount
      exact hcount
  | some state =>
      obtain ⟨-, -, hcount, -, hmem⟩ := haccount.held state hstate
      rw [howned] at hmem
      rw [if_neg (fun hopen => List.not_mem_nil (hmem.2 hopen))] at hcount
      exact hcount

end Registry.Mdns.SnapshotQueue
