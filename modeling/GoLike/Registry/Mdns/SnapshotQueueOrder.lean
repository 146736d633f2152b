import GoLike.Registry.Mdns.SnapshotQueueRuns

/-!
# The order of deliveries

Snapshots are delivered in the order in which they were pushed, and none is lost, in every run in
which no `next` is called while a value of the queue is being delivered and no `push` while another
one has a value in its hand.
-/

namespace Registry.Mdns.SnapshotQueue

variable {α ε : Type} {o : Options ε} {s s' : Queue α ε} {act : Act α ε}

/-! ### What is delivered -/

/-- A value that is delivered by `push` is in its hand; by `next`, it is in the queue. -/
def Operation.holds (value : α) : Operation → Option α
  | next => none
  | push => some value

/-- The value that a call of `push` has in its hand while a waiter is claimed for it. -/
def Frame.given : Frame α ε → Option α
  | delivering _ value operation => operation.holds value
  | undelivered value operation => operation.holds value
  | _ => none

/-- The value at the loop of `push`. -/
def Frame.fresh : Frame α ε → Option α
  | pushing value => some value
  | _ => none

/-- A call of `next` has claimed a value of the queue. -/
def Frame.takes : Frame α ε → Bool
  | delivering _ _ .next => true
  | _ => false

/-- The frame is that of a call of `next` that may claim a value of the queue, or has. -/
def Frame.mayTake : Frame α ε → Bool
  | entering _ => true
  | registering _ => true
  | delivering _ _ .next => true
  | _ => false

def Event.pushedValue : Event α ε → Option α
  | pushed value => some value
  | _ => none

def Event.deliveredValue : Event α ε → Option α
  | resolved _ value => some value
  | _ => none

namespace Queue

variable (s : Queue α ε)

/-- The snapshots that were pushed, in their order. -/
def pushedValues : List α := (s.events.filterMap Event.pushedValue).reverse

/-- The snapshots that were delivered, in their order. -/
def deliveredValues : List α := (s.events.filterMap Event.deliveredValue).reverse

/-- The values that calls of `push` have in their hands. -/
def hand : List α := s.stack.filterMap Frame.given

/-- The values that are handed over at the loop of `push`. -/
def entrance : List α := s.stack.filterMap Frame.fresh

end Queue

/-- A call of `next` is not made while a value of the queue is being delivered, and a call of `push`
is not made while another one has a value in its hand. -/
def Orderly (s : Queue α ε) (act : Act α ε) : Prop :=
  match act with
  | .next => s.stack.any Frame.takes = false
  | .push _ => s.hand = []
  | _ => True

/-- Until the end everything that was pushed has been delivered, is in a hand or is in the queue. -/
structure Conserved (s : Queue α ε) : Prop where
  single : (s.hand ++ s.entrance).length ≤ 1
  everything : s.state = .running →
    s.pushedValues = s.deliveredValues ++ s.hand ++ s.values ++ s.entrance
  inOrder : s.deliveredValues <+: s.pushedValues
  lone : s.state = .running → s.hand ≠ [] → s.values = []
  first : s.state = .running →
    ∀ call value, .delivering call value .next ∈ s.stack → s.values.head? = some value
  apart : s.stack.Pairwise (fun frame below => frame.mayTake = true → below.takes = false)

theorem Conserved.apart_move (horderly : Orderly s act) (h : Conserved s)
    (hmove : Move o s act s') :
  s'.stack.Pairwise (fun frame below => frame.mayTake = true → below.takes = false)
  := by
  have hapart := h.apart
  cases hmove with
  | entered =>
    have hnone : s.stack.any Frame.takes = false := horderly
    grind [Frame.mayTake, List.pairwise_cons]
  | _ => grind [Frame.mayTake, Frame.takes, List.pairwise_cons]

theorem Conserved.first_move (howned : Owned s) (h : Conserved s) (hmove : Move o s act s') :
  s'.state = .running →
    ∀ call value, .delivering call value .next ∈ s'.stack → s'.values.head? = some value
  := by
  have hfirst := h.first
  have hapart := h.apart
  cases hmove with
  | taken hstack howner =>
    have hrunning := howned.ownerError_eq_none o
    grind [Frame.mayTake, Frame.takes, List.pairwise_cons]
  | _ => grind [Frame.mayTake, Frame.takes, List.pairwise_cons]

theorem Conserved.lone_move (howned : Owned s) (hsides : Sides o s) (h : Conserved s)
    (hmove : Move o s act s') :
  s'.state = .running → s'.hand ≠ [] → s'.values = []
  := by
  have hrunning := howned.ownerError_eq_none o
  have hlone := h.lone
  have hsingle := h.single
  have hsided := hsides.sided
  unfold Queue.hand at *
  unfold Queue.entrance at *
  cases hmove with
  | @queued value below hstack =>
      intro _ hhand
      rw [hstack] at hsingle
      simp only [List.filterMap_cons, Frame.given, Frame.fresh, List.length_append,
        List.length_cons] at hsingle
      have hnil : below.filterMap Frame.given = [] := List.eq_nil_of_length_eq_zero (by omega)
      exact absurd hnil hhand
  | _ => grind [Frame.given, Operation.holds]

theorem Top.entrance_eq_nil (h : Top s) (houtside : s.isOutside = true) :
  s.entrance = []
  := by
  rw [Queue.entrance, List.filterMap_eq_nil_iff]
  intro frame hframe
  cases frame with
  | pushing value => exact absurd hframe (h.notMem_of_isOutside houtside value)
  | _ => rfl

theorem Conserved.single_move (htop : Top s) (horderly : Orderly s act) (h : Conserved s)
    (hmove : Move o s act s') :
  (s'.hand ++ s'.entrance).length ≤ 1
  := by
  have hsingle := h.single
  cases hmove with
  | pushed houtside =>
    have hhand : s.hand = [] := horderly
    have hentrance := htop.entrance_eq_nil houtside
    unfold Queue.hand Queue.entrance at *
    simp [List.filterMap_cons, Frame.given, Frame.fresh, hhand, hentrance]
  | _ => unfold Queue.hand Queue.entrance at *; grind [Frame.given, Frame.fresh, Operation.holds]


theorem Conserved.everything_move (howned : Owned s) (hsides : Sides o s) (htop : Top s) (h : Conserved s)
    (hmove : Move o s act s') :
  s'.state = .running →
    s'.pushedValues = s'.deliveredValues ++ s'.hand ++ s'.values ++ s'.entrance
  := by
  have hrunning := howned.ownerError_eq_none o
  have heverything := h.everything
  have hlone := h.lone
  have hsingle := h.single
  have hsided := hsides.sided
  unfold Queue.hand Queue.entrance Queue.pushedValues Queue.deliveredValues at *
  intro hrun
  cases hmove with
  | @undelivered value operation below hstack hends =>
      cases operation with
      | next =>
          have hbefore := heverything hrun
          rw [hstack] at hbefore
          exact hbefore
      | push => exact absurd hrun ((isSome_ownerError howned).1 (hends rfl))
  | @retried value below hstack howner =>
      have hbefore := heverything hrun
      have hempty := hlone hrun
      rw [hstack] at hbefore hsingle hempty
      simp only [List.filterMap_cons, Frame.given, Frame.fresh, Operation.holds, List.length_append,
        List.length_cons] at hbefore hsingle hempty ⊢
      have hgiven : below.filterMap Frame.given = [] := List.eq_nil_of_length_eq_zero (by omega)
      have hfresh : below.filterMap Frame.fresh = [] := List.eq_nil_of_length_eq_zero (by omega)
      rw [hbefore, hgiven, hfresh, hempty (List.cons_ne_nil _ _)]
      simp
  | @queued value below hstack hwaiters hroom =>
      have hbefore := heverything hrun
      rw [hstack] at hbefore hsingle
      simp only [List.filterMap_cons, Frame.given, Frame.fresh, List.length_append,
        List.length_cons] at hbefore hsingle ⊢
      have hgiven : below.filterMap Frame.given = [] := List.eq_nil_of_length_eq_zero (by omega)
      have hfresh : below.filterMap Frame.fresh = [] := List.eq_nil_of_length_eq_zero (by omega)
      rw [hbefore, hgiven, hfresh]
      simp
  | @passed value call rest below hstack hwaiters hstate
  | @handed value call rest below hstack hwaiters hstate =>
      have hbefore := heverything hrun
      have hvalues : s.values = [] := by
        by_contra hne
        rw [hsided hne] at hwaiters
        cases hwaiters
      rw [hstack] at hbefore hsingle
      simp only [List.filterMap_cons, Frame.given, Frame.fresh, Operation.holds, List.length_append,
        List.length_cons] at hbefore hsingle ⊢
      have hgiven : below.filterMap Frame.given = [] := List.eq_nil_of_length_eq_zero (by omega)
      have hfresh : below.filterMap Frame.fresh = [] := List.eq_nil_of_length_eq_zero (by omega)
      rw [hbefore, hgiven, hfresh, hvalues]
      simp
  | @pushed value houtside howner =>
      have hbefore := heverything hrun
      have hentrance := htop.entrance_eq_nil houtside
      unfold Queue.entrance at hentrance
      simp only [List.filterMap_cons, Frame.given, Frame.fresh, Event.pushedValue,
        Event.deliveredValue, List.reverse_cons]
      rw [hbefore, hentrance, List.append_nil]
  | @taken _ call value below hstack howner =>
      have hbefore := heverything hrun
      have hhead := h.first hrun call value (by rw [hstack]; exact List.mem_cons_self)
      obtain ⟨values, hvalues⟩ := List.head?_eq_some_iff.1 hhead
      rw [hstack] at hbefore hlone
      simp only [List.filterMap_cons, Frame.given, Frame.fresh, Operation.holds, Event.pushedValue,
        Event.deliveredValue, List.reverse_cons] at hbefore hlone ⊢
      have hgiven : below.filterMap Frame.given = [] := by
        by_contra hne
        rw [hlone hrun hne] at hvalues
        cases hvalues
      rw [hbefore, hgiven, hvalues]
      simp
  | @given _ call value below hstack howner =>
      have hbefore := heverything hrun
      have hempty := hlone hrun
      rw [hstack] at hbefore hsingle hempty
      simp only [List.filterMap_cons, Frame.given, Frame.fresh, Operation.holds, Event.pushedValue,
        Event.deliveredValue, List.reverse_cons, List.length_append, List.length_cons]
        at hbefore hsingle hempty ⊢
      have hgiven : below.filterMap Frame.given = [] := List.eq_nil_of_length_eq_zero (by omega)
      have hfresh : below.filterMap Frame.fresh = [] := List.eq_nil_of_length_eq_zero (by omega)
      rw [hbefore, hgiven, hfresh, hempty (List.cons_ne_nil _ _)]
      simp
  | @outrun _ call value operation below hstack | inspected hstack | rejected hstack
  | abandoned hstack =>
      have hbefore := heverything hrun
      rw [hstack] at hbefore
      exact hbefore
  | overtaken hstack howner =>
      rw [hrunning.2 hrun] at howner
      cases howner
  | unadmitted hstack hframe =>
      have hbefore := heverything hrun
      rw [hstack] at hbefore
      obtain rfl | rfl := hframe
      · exact hbefore
      · exact hbefore
  | refused => exact heverything hrun
  | _ => grind [Frame.given, Frame.fresh, Operation.holds, Event.pushedValue, Event.deliveredValue]

theorem Conserved.inOrder_move (howned : Owned s) (h : Conserved s) (hmove : Move o s act s')
    (hafter : s'.state = .running →
      s'.pushedValues = s'.deliveredValues ++ s'.hand ++ s'.values ++ s'.entrance) :
  s'.deliveredValues <+: s'.pushedValues
  := by
  have hrunning := howned.ownerError_eq_none o
  have hinOrder := h.inOrder
  by_cases hrun : s'.state = .running
  · rw [hafter hrun, List.append_assoc, List.append_assoc]
    exact List.prefix_append _ _
  · cases hmove with
    | taken hstack howner | given hstack howner | pushed hstack howner =>
        exact absurd (hrunning.1 howner) hrun
    | _ => exact hinOrder

theorem Conserved.move (howned : Owned s) (hsides : Sides o s) (htop : Top s)
    (horderly : Orderly s act) (h : Conserved s) (hmove : Move o s act s') :
  Conserved s' where
  single := h.single_move htop horderly hmove
  everything := h.everything_move howned hsides htop hmove
  inOrder := h.inOrder_move howned hmove (h.everything_move howned hsides htop hmove)
  lone := h.lone_move howned hsides hmove
  first := h.first_move howned hmove
  apart := h.apart_move horderly hmove

theorem conserved_created :
  Conserved (newSnapshotQueue : Queue α ε)
  := by
  constructor
  · exact Nat.zero_le _
  · exact fun _ => rfl
  · exact List.prefix_rfl
  · exact fun _ _ => rfl
  · intro _ call value hmem
    cases hmem
  · exact List.Pairwise.nil

theorem Reachable.conserved (h : Reachable o Orderly s) :
  Conserved s
  := by
  induction h with
  | created => exact conserved_created
  | step h hallowed hstep ih =>
      exact ih.move h.inv.owned h.inv.sides h.inv.top hallowed (move_of_step h.inv.owned hstep)

/-! ### The queue -/

/-- In every run the queue is bounded, no waiter waits beside a value unless its cancellation has
won, every call is settled once at most, and after the end no snapshot is delivered, later calls
are rejected with the same error, and all calls are settled when the open operations have returned.
In runs that are orderly the snapshots that were delivered are the first that were pushed, and until
the end each of the others is in the queue or in the hand of a call of `push`. -/
theorem snapshotQueue_delivers (o : Options ε) :
  (∀ s : Queue α ε, Reachable o (fun _ _ => True) s →
    (s.values ≠ [] → s.waiters = [] ∧
      ∀ call, s.waiterStates call = some .waiting → .canceling call ∈ s.stack) ∧
    s.values.length ≤ o.bufferSize ∧
    (∀ call, settlements s call ≤ 1) ∧
    ∀ error, s.ownerError o = some error →
      Ended error s.events ∧ (s.stack = [] → ∀ call < s.calls, settlements s call = 1) ∧
      ∀ act s', s.step o act = some s' → s'.ownerError o = some error) ∧
  ∀ s : Queue α ε, Reachable o Orderly s →
    s.deliveredValues <+: s.pushedValues ∧
    (s.ownerError o = none →
      s.pushedValues = s.deliveredValues ++ s.hand ++ s.values ++ s.entrance)
  := by
  constructor
  · intro s hs
    have hinv := hs.inv
    refine ⟨?_, hinv.sides.bound, hinv.settlements_le, ?_⟩
    · intro hvalues
      have hwaiters := hinv.sides.sided hvalues
      refine ⟨hwaiters, ?_⟩
      intro call hcall
      have hrunning : s.state = .running := by
        by_contra hended
        exact hvalues (hinv.sides.cleared hended)
      obtain hmem | hmem := hinv.parked hrunning call hcall
      · rw [hwaiters] at hmem
        cases hmem
      · exact hmem
    · intro error herror
      refine ⟨hinv.history.ended error herror, ?_, ?_⟩
      · intro hidle call hcall
        apply hinv.settlements_eq _ hidle hcall
        apply (isSome_ownerError (o := o) hinv.owned).1
        rw [herror]
        rfl
      · intro act s' hstep
        exact ownerError_move hinv.top herror hinv.owned (move_of_step hinv.owned hstep)
  · intro s hs
    have hconserved := hs.conserved
    refine ⟨hconserved.inOrder, ?_⟩
    intro howner
    apply hconserved.everything
    exact (hs.inv.owned.ownerError_eq_none o).1 howner

/-! ### A delivery that is entered again -/

/-- The queue after some acts. -/
def after (o : Options ε) (s : Queue α ε) : List (Act α ε) → Option (Queue α ε)
  | [] => some s
  | act :: acts => (s.step o act).bind (fun s => after o s acts)

theorem reachable_after {acts : List (Act α ε)} (h : Reachable o (fun _ _ => True) s)
    (hafter : after o s acts = some s') :
  Reachable o (fun _ _ => True) s'
  := by
  induction acts generalizing s with
  | nil =>
      cases hafter
      exact h
  | cons act acts ih =>
      obtain ⟨next, hstep, hnext⟩ := Option.bind_eq_some_iff.1 hafter
      exact ih (h.step trivial hstep) hnext

/-- A queue for two snapshots, where errors are numbers. -/
def twoOptions : Options ℕ := ⟨2, by decide, 0, 1, 2⟩

/-- Two snapshots are pushed, and the `stop` of the context of a call of `next` calls `next`. -/
def reentrantActs : List (Act ℕ ℕ) :=
  let active : Value ℕ := ⟨none, true⟩
  [.push (some 1), .run, .run, .push (some 2), .run, .run,
    .next, .returns active, .returns active,
    .next, .returns active, .returns active, .returns active, .run, .returns active, .run]

/-- Both calls get the first snapshot, and the second one is lost. -/
theorem snapshotQueue_reentrantNext :
  ∃ s : Queue ℕ ℕ, Reachable twoOptions (fun _ _ => True) s ∧ s.stack = [] ∧
    s.ownerError twoOptions = none ∧ s.pushedValues = [1, 2] ∧ s.deliveredValues = [1, 1] ∧
    s.values = []
  := by
  obtain ⟨s, hs⟩ : ∃ s, after twoOptions newSnapshotQueue reentrantActs = some s := ⟨_, rfl⟩
  refine ⟨s, reachable_after .created hs, ?_⟩
  have hsome := Option.some.inj hs
  rw [← hsome]
  exact ⟨rfl, rfl, rfl, rfl, rfl⟩

end Registry.Mdns.SnapshotQueue
