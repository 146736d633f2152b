import GoLike.Client.Resolver

/-!
# The snapshot of a service is current

The snapshot of a service is at least as new as the last delivery that was consumed. So it is
that of the registry when a watcher is waited for and has delivered and been consumed as far
as the last change.
-/

namespace Client

variable {N I : Type} {hasEndpoints : I → Bool}

/-! ### Stages -/

/-- A read of the service is in flight. -/
def Stage.isReading : Stage → Bool
  | .openRead _ _ => true
  | .firstRead _ _ => true
  | .reopenRead _ _ => true
  | _ => false

/-- The watcher of the service has failed, and no reopened one has refreshed the snapshot. -/
def Stage.isRecovering : Stage → Bool
  | .failing _ => true
  | .backoff => true
  | .reopening => true
  | .reopenRead _ _ => true
  | .ended => true
  | _ => false

/-- The state since which a read is in flight. -/
def Stage.since : Stage → Option ℕ
  | .openRead _ since => some since
  | .firstRead _ since => some since
  | .reopenRead _ since => some since
  | _ => none

/-- Every change after the watcher was opened has been followed by a delivery at least as new,
and the deliveries have been consumed. -/
def Watch.Drained (w : Watch) (registry : ℕ) : Prop := w.queue = [] ∧ registry ≤ w.last

theorem Watch.last_of_queue {w : Watch} (h : w.queue = []) :
  w.last = w.consumed
  := by
  rw [Watch.last, h]
  rfl

/-! ### Services -/

/-- What holds of a service, given the instances of every state of the registry. -/
structure Service.Follows (content : ℕ → List I) (registry : ℕ) (s : Service I) : Prop where
  snapshot : s.stage.isActive = true → s.snapshot = content s.seen ∧ s.seen ≤ registry
  queue : ∀ w, s.stage.watch = some w → ∀ state ∈ w.queue, state ≤ registry
  seen : ∀ w, s.stage.watch = some w → s.stage.isReading = false → w.consumed ≤ s.seen
  since : ∀ w since, s.stage.watch = some w → s.stage.since = some since →
    w.consumed ≤ since ∧ since ≤ registry

namespace Service.Follows

variable {content : ℕ → List I} {registry : ℕ} {s : Service I}

theorem absent :
  Service.Follows content registry (absentService : Service I)
  := by
  constructor
  case snapshot => rintro ⟨⟩
  case queue => rintro _ ⟨⟩
  case seen => rintro _ ⟨⟩
  case since => rintro _ _ ⟨⟩

/-- The registry changes. -/
theorem changes (h : s.Follows content registry) :
  s.Follows content (registry + 1)
  := by
  constructor
  case snapshot =>
    intro hactive
    obtain ⟨hsnapshot, hseen⟩ := h.snapshot hactive
    exact ⟨hsnapshot, Nat.le_succ_of_le hseen⟩
  case queue => exact fun w hw state hstate => Nat.le_succ_of_le (h.queue w hw state hstate)
  case seen => exact h.seen
  case since =>
    intro w since hw hsince
    obtain ⟨hconsumed, hle⟩ := h.since w since hw hsince
    exact ⟨hconsumed, Nat.le_succ_of_le hle⟩

/-- A stage without a watcher. -/
theorem unwatched {s' : Service I} (h : s.Follows content registry)
    (hwatch : s'.stage.watch = none)
    (hkeeps : s'.stage.isActive = true → s.stage.isActive = true ∧ s'.snapshot = s.snapshot ∧
      s'.seen = s.seen) :
  s'.Follows content registry
  := by
  constructor
  case snapshot =>
    intro hactive
    obtain ⟨hbefore, hsnapshot, hseen⟩ := hkeeps hactive
    rw [hsnapshot, hseen]
    exact h.snapshot hbefore
  case queue =>
    intro w hw
    rw [hwatch] at hw
    cases hw
  case seen =>
    intro w hw
    rw [hwatch] at hw
    cases hw
  case since =>
    intro w since hw
    rw [hwatch] at hw
    cases hw

/-- The other variables do not matter. -/
theorem congr {s' : Service I} (h : s.Follows content registry) (hstage : s'.stage = s.stage)
    (hsnapshot : s'.snapshot = s.snapshot) (hseen : s'.seen = s.seen) :
  s'.Follows content registry
  := by
  constructor
  case snapshot =>
    rw [hstage, hsnapshot, hseen]
    exact h.snapshot
  case queue =>
    rw [hstage]
    exact h.queue
  case seen =>
    rw [hstage, hseen]
    exact h.seen
  case since =>
    rw [hstage]
    exact h.since

theorem stopWatcher (h : s.Follows content registry) :
  s.stopWatcher.Follows content registry
  := by
  rw [Service.stopWatcher]
  split
  · exact h.congr rfl rfl rfl
  · exact h

theorem close (h : s.Follows content registry) :
  s.close.Follows content registry
  := by
  rw [Service.close]
  split
  · have hnotified : s.notifyState.Follows content registry := h.congr rfl rfl rfl
    exact hnotified.stopWatcher
  · exact h

/-- A watcher is opened, and the state is read. -/
theorem reads {s' : Service I} (h : s.Follows content registry) {openedAt : ℕ}
    (hopened : openedAt ≤ registry) (hwatch : s'.stage.watch = some ⟨openedAt, []⟩)
    (hreading : s'.stage.isReading = true) (hsince : s'.stage.since = some registry)
    (hkeeps : s'.stage.isActive = true → s.stage.isActive = true ∧ s'.snapshot = s.snapshot ∧
      s'.seen = s.seen) :
  s'.Follows content registry
  := by
  constructor
  case snapshot =>
    intro hactive
    obtain ⟨hbefore, hsnapshot, hseen⟩ := hkeeps hactive
    rw [hsnapshot, hseen]
    exact h.snapshot hbefore
  case queue =>
    intro w hw state hstate
    rw [hwatch] at hw
    cases hw
    exact absurd hstate List.not_mem_nil
  case seen =>
    intro w hw hnot
    rw [hreading] at hnot
    cases hnot
  case since =>
    intro w since hw hs
    rw [hwatch] at hw
    rw [hsince] at hs
    cases hw
    cases hs
    exact ⟨hopened, Nat.le_refl _⟩

/-- A snapshot is published, at least as new as what its watcher has delivered. -/
theorem publishes {s' : Service I} {w : Watch} {state : ℕ}
    (hstate : state ≤ registry) (hsnapshot : s'.snapshot = content state)
    (hseen : s'.seen = state) (hwatch : s'.stage.watch = some w) (hreading : s'.stage.since = none)
    (hconsumed : w.consumed ≤ state) (hqueue : ∀ state ∈ w.queue, state ≤ registry) :
  s'.Follows content registry
  := by
  constructor
  case snapshot => exact fun _ => ⟨by rw [hsnapshot, hseen], by rw [hseen]; exact hstate⟩
  case queue =>
    intro w' hw
    rw [hwatch] at hw
    cases hw
    exact hqueue
  case seen =>
    intro w' hw _
    rw [hwatch] at hw
    cases hw
    rw [hseen]
    exact hconsumed
  case since =>
    intro w' since _ hsince
    rw [hreading] at hsince
    cases hsince

/-- A watcher delivers a state. -/
theorem delivers (h : s.Follows content registry) {w : Watch} (hw : s.stage.watch = some w)
    {state : ℕ} (hstate : state ≤ registry) :
  Service.Follows content registry { s with stage := s.stage.setWatch (w.deliver state) }
  := by
  have hqueue : ∀ v ∈ (w.deliver state).queue, v ≤ registry := by
    intro v hv
    obtain hv | hv := List.mem_append.mp hv
    · exact h.queue w hw v hv
    · rw [List.mem_singleton.mp hv]
      exact hstate
  obtain ⟨stage, snapshot, ready, version, terminalFailure, watcher, seen⟩ := s
  have hsnapshot := h.snapshot
  have hseen := h.seen w hw
  have hsince := h.since w
  cases stage with
  | openRead watch since =>
      cases hw
      exact ⟨by rintro ⟨⟩, by rintro _ ⟨⟩; exact hqueue, by rintro _ ⟨⟩ ⟨⟩,
        by rintro _ _ ⟨⟩ ⟨⟩; exact hsince since rfl rfl⟩
  | first | following =>
      cases hw
      exact ⟨hsnapshot, by rintro _ ⟨⟩; exact hqueue, by rintro _ ⟨⟩; exact hseen,
        by rintro _ _ ⟨⟩ ⟨⟩⟩
  | firstRead watch since | reopenRead watch since =>
      cases hw
      exact ⟨hsnapshot, by rintro _ ⟨⟩; exact hqueue, by rintro _ ⟨⟩ ⟨⟩,
        by rintro _ _ ⟨⟩ ⟨⟩; exact hsince since rfl rfl⟩
  | absent | opening | rollback | failing | backoff | reopening | ended => cases hw

/-- A stage that depends on whether the resolver is closed. -/
theorem unwatched_if (h : s.Follows content registry) (hactive : s.stage.isActive = true)
    (closed : Bool) {t u : Stage} (ht : t.watch = none) (hu : u.watch = none) :
  Service.Follows content registry { s with stage := if closed then t else u }
  := by
  apply h.unwatched
  · dsimp only
    split
    · exact ht
    · exact hu
  · exact fun _ => ⟨hactive, rfl, rfl⟩

/-- A step keeps what holds of a service. -/
theorem step {closed : Bool} {s' : Service I} (h : s.Follows content registry)
    (hstep : ServiceStep hasEndpoints content closed registry s s') :
  s'.Follows content registry
  := by
  cases hstep with
  | watchOpens hstage openedAt hopened =>
      exact h.reads hopened rfl rfl rfl (by rintro ⟨⟩)
  | watchRejects | openReadRejects | rolledBack => exact h.unwatched rfl (by rintro ⟨⟩)
  | @openReads watch since hstage state hsince hstate =>
      split
      · exact h.unwatched rfl (by rintro ⟨⟩)
      · obtain ⟨hconsumed, -⟩ := h.since watch since (by rw [hstage]; rfl) (by rw [hstage]; rfl)
        exact publishes hstate rfl rfl rfl rfl (Nat.le_trans hconsumed hsince)
          (h.queue watch (by rw [hstage]; rfl))
  | delivers hwatch state hlast hstate => exact h.delivers hwatch hstate
  | @signaled consumed state queue hstage =>
      have hstates := h.queue ⟨consumed, state :: queue⟩ (by rw [hstage]; rfl)
      constructor
      case snapshot => exact fun _ => h.snapshot (by rw [hstage]; rfl)
      case queue =>
        rintro _ ⟨⟩ v hv
        exact hstates v (List.mem_cons_of_mem _ hv)
      case seen => rintro _ ⟨⟩ ⟨⟩
      case since =>
        rintro _ _ ⟨⟩ ⟨⟩
        exact ⟨hstates state List.mem_cons_self, Nat.le_refl _⟩
  | @firstReads watch since hstage state hsince hstate
  | @reopenReads watch since hstage state hsince hstate =>
      obtain ⟨hconsumed, -⟩ := h.since watch since (by rw [hstage]; rfl) (by rw [hstage]; rfl)
      exact publishes hstate rfl rfl rfl rfl (Nat.le_trans hconsumed hsince)
        (h.queue watch (by rw [hstage]; rfl))
  | @followed consumed state queue hstage =>
      have hstates := h.queue ⟨consumed, state :: queue⟩ (by rw [hstage]; rfl)
      refine publishes (hstates state List.mem_cons_self) rfl rfl rfl rfl (Nat.le_refl _) ?_
      exact fun v hv => hstates v (List.mem_cons_of_mem _ hv)
  | fails hwatch hactive runtimeFailure hruntime =>
      refine h.stopWatcher.unwatched rfl (fun _ => ⟨?_, rfl, rfl⟩)
      rw [Service.stopWatcher]
      split
      · exact hactive
      · exact hactive
  | stopResolves | stopRejects => exact h.congr rfl rfl rfl
  | stopped hstage hwatcher | backoffEnds hstage | reopenRejects hstage =>
      exact h.unwatched_if (by rw [hstage]; rfl) closed rfl rfl
  | stopFailed hstage hwatcher =>
      exact h.unwatched rfl (fun _ => ⟨by rw [hstage]; rfl, rfl, rfl⟩)
  | reopens hstage openedAt hopened =>
      exact h.reads hopened rfl rfl rfl (fun _ => ⟨by rw [hstage]; rfl, rfl, rfl⟩)

end Service.Follows

/-! ### The resolver -/

variable [DecidableEq N] {content : N → ℕ → List I} {r r' : Resolver N I}

/-- What holds of a resolver. -/
def Resolver.Follows (content : N → ℕ → List I) (r : Resolver N I) : Prop :=
  ∀ name, (r.services name).Follows (content name) (r.registry name)

theorem Resolver.Follows.update (h : r.Follows content) (name : N) {s : Service I}
    (hs : s.Follows (content name) (r.registry name)) (n : N) :
  (Function.update r.services name s n).Follows (content n) (r.registry n)
  := by
  by_cases hn : n = name
  · subst hn
    rw [Function.update_self]
    exact hs
  · rw [Function.update_of_ne hn]
    exact h n

omit [DecidableEq N] in
/-- Going on with a call changes no service. -/
theorem Resolver.services_resume (r : Resolver N I) (i : ℕ) (c : Call N) :
  (r.resume i c).services = r.services ∧ (r.resume i c).registry = r.registry ∧
    (r.resume i c).closed = r.closed
  := by
  rw [Resolver.resume]
  split
  · exact ⟨rfl, rfl, rfl⟩
  · exact ⟨rfl, rfl, rfl⟩
  · exact ⟨rfl, rfl, rfl⟩

theorem Resolver.Follows.step (h : r.Follows content)
    (hstep : ResolverStep hasEndpoints content r r') :
  r'.Follows content
  := by
  cases hstep with
  | changes name =>
      intro n
      dsimp only
      by_cases hn : n = name
      · subst hn
        rw [Function.update_self]
        exact (h n).changes
      · rw [Function.update_of_ne hn]
        exact h n
  | service name hservice => exact h.update name ((h name).step hservice)
  | getService name block hopen =>
      apply h.update name
      split
      · exact (h name).unwatched rfl (by rintro ⟨⟩)
      · exact h name
  | @resumes i c hcall hready =>
      obtain ⟨hservices, hregistry, -⟩ := r.services_resume i c
      intro n
      rw [hservices, hregistry]
      exact h n
  | callFails hcall => exact h
  | close =>
      split
      · exact h
      · exact fun n => (h n).close

theorem Resolver.Follows.run {registry : N → ℕ}
    (hrun : Relation.ReflTransGen (ResolverStep hasEndpoints content)
      (newDiscoveryResolver registry) r) :
  r.Follows content
  := by
  induction hrun with
  | refl => exact fun _ => .absent
  | tail _ hstep ih => exact ih.step hstep

/-! ### Recovery -/

theorem snapshot_stopWatcher (s : Service I) :
  s.stopWatcher.snapshot = s.snapshot ∧ s.stopWatcher.stage = s.stage
  := by
  rw [Service.stopWatcher]
  split
  · exact ⟨rfl, rfl⟩
  · exact ⟨rfl, rfl⟩

theorem snapshot_close (s : Service I) :
  s.close.snapshot = s.snapshot ∧ s.close.stage = s.stage
  := by
  rw [Service.close]
  split
  · exact snapshot_stopWatcher s.notifyState
  · exact ⟨rfl, rfl⟩

/-- The snapshot is refreshed with the instances of a state that is not before the one at which
the read was called. -/
def Refreshes (content : ℕ → List I) (registry : ℕ) (s s' : Service I) : Prop :=
  ∃ watch since state, s.stage = .reopenRead watch since ∧ s'.stage = .first watch ∧
    since ≤ state ∧ state ≤ registry ∧ s'.snapshot = content state

theorem isRecovering_setWatch (stage : Stage) (w : Watch) :
  (stage.setWatch w).isRecovering = stage.isRecovering
  := by
  cases stage with
  | _ => rfl

/-- A service that recovers after a step has the snapshot from before it, and it goes on to
recover unless it is refreshed. -/
theorem step_recovering {content : ℕ → List I} {registry : ℕ} {closed : Bool} {s s' : Service I}
    (hstep : ServiceStep hasEndpoints content closed registry s s') :
  (s'.stage.isRecovering = true → s'.snapshot = s.snapshot) ∧
    (s.stage.isRecovering = true → s'.stage.isRecovering = true ∨
      Refreshes content registry s s')
  := by
  cases hstep with
  | watchOpens hstage openedAt hopened | watchRejects hstage | openReadRejects hstage
  | rolledBack hstage | signaled hstage =>
      rw [hstage]
      exact ⟨fun _ => rfl, by rintro ⟨⟩⟩
  | openReads hstage state hsince hstate =>
      rw [hstage]
      split
      · exact ⟨fun _ => rfl, by rintro ⟨⟩⟩
      · exact ⟨by rintro ⟨⟩, by rintro ⟨⟩⟩
  | delivers hwatch state hlast hstate =>
      dsimp only
      rw [isRecovering_setWatch]
      exact ⟨fun _ => rfl, .inl⟩
  | firstReads hstage state hsince hstate | followed hstage =>
      rw [hstage]
      exact ⟨by rintro ⟨⟩, by rintro ⟨⟩⟩
  | fails hwatch hactive runtimeFailure hruntime =>
      exact ⟨fun _ => (snapshot_stopWatcher s).1, fun _ => .inl rfl⟩
  | stopResolves | stopRejects => exact ⟨fun _ => rfl, .inl⟩
  | stopped | backoffEnds | reopenRejects =>
      refine ⟨fun _ => rfl, fun _ => .inl ?_⟩
      cases closed with
      | true | false => rfl
  | stopFailed | reopens => exact ⟨fun _ => rfl, fun _ => .inl rfl⟩
  | @reopenReads watch since hstage state hsince hstate =>
      exact ⟨by rintro ⟨⟩, fun _ => .inr ⟨watch, since, state, hstage, rfl, hsince, hstate, rfl⟩⟩

theorem Resolver.step_recovering (hstep : ResolverStep hasEndpoints content r r') (name : N) :
  ((r'.services name).stage.isRecovering = true →
    (r'.services name).snapshot = (r.services name).snapshot) ∧
  ((r.services name).stage.isRecovering = true →
    (r'.services name).stage.isRecovering = true ∨
      Refreshes (content name) (r.registry name) (r.services name) (r'.services name))
  := by
  cases hstep with
  | changes | callFails => exact ⟨fun _ => rfl, .inl⟩
  | service n hservice =>
      dsimp only
      by_cases hn : name = n
      · subst hn
        rw [Function.update_self]
        exact Client.step_recovering hservice
      · rw [Function.update_of_ne hn]
        exact ⟨fun _ => rfl, .inl⟩
  | getService n block hopen =>
      dsimp only [Resolver.getService]
      by_cases hn : name = n
      · subst hn
        rw [Function.update_self]
        split
        · rename_i habsent
          rw [habsent]
          exact ⟨fun _ => rfl, by rintro ⟨⟩⟩
        · exact ⟨fun _ => rfl, .inl⟩
      · rw [Function.update_of_ne hn]
        exact ⟨fun _ => rfl, .inl⟩
  | @resumes i c hcall hready =>
      rw [(r.services_resume i c).1]
      exact ⟨fun _ => rfl, .inl⟩
  | close =>
      split
      · exact ⟨fun _ => rfl, .inl⟩
      · dsimp only
        obtain ⟨hsnapshot, hstage⟩ := snapshot_close (r.services name)
        rw [hsnapshot, hstage]
        exact ⟨fun _ => rfl, .inl⟩

/-! ### Closing -/

/-- A closed resolver returns no snapshot. -/
theorem Resolver.step_closed (hclosed : r.closed = true)
    (hstep : ResolverStep hasEndpoints content r r') :
  r'.closed = true ∧ r'.returned = r.returned
  := by
  cases hstep with
  | changes | service | callFails => exact ⟨hclosed, rfl⟩
  | getService name block hopen =>
      rw [hclosed] at hopen
      cases hopen
  | @resumes i c hcall hready =>
      refine ⟨(r.services_resume i c).2.2.trans hclosed, ?_⟩
      rw [Resolver.resume, Service.resume, if_pos hclosed]
  | close =>
      rw [if_pos hclosed]
      exact ⟨hclosed, rfl⟩

theorem Resolver.run_closed (hclosed : r.closed = true)
    (hrun : Relation.ReflTransGen (ResolverStep hasEndpoints content) r r') :
  r'.closed = true ∧ r'.returned = r.returned
  := by
  induction hrun with
  | refl => exact ⟨hclosed, rfl⟩
  | tail _ hstep ih =>
      obtain ⟨hclosed', hreturned⟩ := step_closed ih.1 hstep
      exact ⟨hclosed', hreturned.trans ih.2⟩

/-! ### Convergence -/

/-- A run in which a service recovers. -/
def RecoveringRun (hasEndpoints : I → Bool) (content : N → ℕ → List I) (name : N) :
    Resolver N I → Resolver N I → Prop :=
  Relation.ReflTransGen (fun r r' => ResolverStep hasEndpoints content r r' ∧
    (r'.services name).stage.isRecovering = true)

/-- In every run: a service whose watcher has been consumed as far as the last change, and that
is not being read, has the snapshot of the registry; the snapshot of a service whose watcher has
failed stays until the reopened one is refreshed; and no snapshot is returned after the resolver
has been closed. -/
theorem resolver_converges {registry : N → ℕ}
    (hrun : Relation.ReflTransGen (ResolverStep hasEndpoints content)
      (newDiscoveryResolver registry) r) :
  (∀ name w, (r.services name).stage.watch = some w →
    (r.services name).stage.isReading = false → w.Drained (r.registry name) →
    (r.services name).snapshot = content name (r.registry name)) ∧
  (∀ name r', RecoveringRun hasEndpoints content name r r' →
    (r'.services name).snapshot = (r.services name).snapshot) ∧
  (∀ name r', ResolverStep hasEndpoints content r r' →
    (r.services name).stage.isRecovering = true →
    (r'.services name).stage.isRecovering = true ∨
      Refreshes (content name) (r.registry name) (r.services name) (r'.services name)) ∧
  (r.closed = true → ∀ r', Relation.ReflTransGen (ResolverStep hasEndpoints content) r r' →
    r'.returned = r.returned)
  := by
  have hfollows := Resolver.Follows.run hrun
  refine ⟨?_, ?_, ?_, ?_⟩
  · intro name w hw hreading hdrained
    obtain ⟨hqueue, hlast⟩ := hdrained
    rw [Watch.last_of_queue hqueue] at hlast
    have hseen := (hfollows name).seen w hw hreading
    have hactive : (r.services name).stage.isActive = true := by
      cases hstage : (r.services name).stage with
      | openRead watch since =>
          rw [hstage] at hreading
          cases hreading
      | absent | opening | rollback =>
          rw [hstage] at hw
          cases hw
      | _ => rfl
    obtain ⟨hsnapshot, hle⟩ := (hfollows name).snapshot hactive
    rw [hsnapshot, Nat.le_antisymm hle (Nat.le_trans hlast hseen)]
  · intro name r' hrecovering
    induction hrecovering with
    | refl => rfl
    | tail _ hstep ih => exact ((Resolver.step_recovering hstep.1 name).1 hstep.2).trans ih
  · exact fun name r' hstep => (Resolver.step_recovering hstep name).2
  · exact fun hclosed r' hrun' => (Resolver.run_closed hclosed hrun').2

/-- A service whose watcher follows it, after one change. -/
def changedService : Service ℕ := ⟨.following ⟨1, []⟩, [1], true, 1, false, some .running, 1⟩

/-- A service that changes once, after its first read. -/
theorem resolver_converges_changed :
  ∃ r : Resolver Unit ℕ, r.services () = changedService ∧ r.registry () = 1 ∧
    (r.services ()).snapshot = [1]
  := by
  let endpoints : ℕ → Bool := fun _ => true
  let content : Unit → ℕ → List ℕ := fun _ state => [state]
  let at_ (n : ℕ) (s : Service ℕ) : Resolver Unit ℕ :=
    ⟨fun _ => n, fun _ => s, false, [⟨(), false, .state⟩], []⟩
  have hupdate : ∀ (A : Type) (f : Unit → A) (a : A), Function.update f () a = fun _ => a :=
    fun A f a => funext (fun _ => Function.update_self () a f)
  have hservice : ∀ {n : ℕ} {s s' : Service ℕ},
      ServiceStep endpoints (content ()) false n s s' →
      ResolverStep endpoints content (at_ n s) (at_ n s') := by
    intro n s s' h
    have hstep : ResolverStep endpoints content (at_ n s) _ := .service () h
    rwa [hupdate] at hstep
  let read : Service ℕ := absentService.opened endpoints (content ()) ⟨0, []⟩ 0
  have hget : ResolverStep endpoints content (newDiscoveryResolver (fun _ => 0))
      (at_ 0 { absentService with stage := .opening }) := by
    have hstep : ResolverStep endpoints content (newDiscoveryResolver (fun _ => 0)) _ :=
      .getService () false rfl
    rwa [Resolver.getService, hupdate] at hstep
  have hchange : ResolverStep endpoints content (at_ 0 read) (at_ 1 read) := by
    have hstep : ResolverStep endpoints content (at_ 0 read) _ := .changes ()
    rwa [hupdate] at hstep
  have hrun : Relation.ReflTransGen (ResolverStep endpoints content)
      (newDiscoveryResolver (fun _ => 0)) (at_ 1 changedService) := by
    refine .tail (.tail (.tail (.tail (.tail (.tail (.tail .refl hget)
      (hservice (.watchOpens rfl 0 (Nat.le_refl 0))))
      (hservice (.openReads rfl 0 (Nat.le_refl 0) (Nat.le_refl 0)))) hchange)
      (hservice
        (.delivers rfl 1 (show (Watch.mk 0 []).last ≤ 1 from Nat.zero_le 1) (Nat.le_refl 1))))
      (hservice (.signaled rfl)))
      (hservice (.firstReads rfl 1 (Nat.le_refl 1) (Nat.le_refl 1)))
  obtain ⟨hconverges, -, -, -⟩ := resolver_converges hrun
  exact ⟨at_ 1 changedService, rfl, rfl, hconverges () ⟨1, []⟩ rfl rfl ⟨rfl, Nat.le_refl 1⟩⟩

end Client
