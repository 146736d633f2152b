import GoLike.Core.App

/-!
# The registered instance is withdrawn once

A registration that has succeeded is not yet observed, is held, has been given to a stop
sequence or to the compensation, or has been withdrawn. Exactly one of these holds, and behind
its withdrawal a stop sequence leaves nothing to be held.
-/

namespace Core

variable {cfg : AppConfig}

/-! ### Counting -/

theorem count_set_add {α : Type} [DecidableEq α] {l : List α} {i : ℕ} {old : α}
    (h : l[i]? = some old) (new x : α) :
  (l.set i new).count x + (if old = x then 1 else 0) = l.count x + (if new = x then 1 else 0)
  := by
  induction l generalizing i with
  | nil => cases h
  | cons b l ih =>
      cases i with
      | zero =>
          obtain rfl : b = old := Option.some.inj h
          simp only [List.set_cons_zero, List.count_cons, beq_iff_eq]
          omega
      | succ i =>
          have hrest := ih h
          simp only [List.set_cons_succ, List.count_cons, beq_iff_eq]
          omega

/-! ### Phases -/

/-- The registration has not been begun. -/
def Startup.isEarly : Startup → Bool
  | .idle => true
  | .installing => true
  | .beforeHooks _ => true
  | .launching _ => true
  | .launched => true
  | .building _ => true
  | .endpoint _ => true
  | .built => true
  | _ => false

/-- The startup has not called anything. -/
def Startup.isUnbegun : Startup → Bool
  | .idle => true
  | .installing => true
  | _ => false

/-- The startup is not waited for any more. -/
def StopPhase.isJoined : StopPhase → Bool
  | .cancelling => false
  | .joining => false
  | _ => true

/-- The instance that was held has been withdrawn. -/
def StopPhase.isWithdrawn : StopPhase → Bool
  | .cancelling => false
  | .joining => false
  | .beforeHooks _ => false
  | _ => true

theorem Startup.ne_registerWait_of_early {s : Startup} (h : s.isEarly = true) :
  s ≠ .registerWait
  := by
  rintro rfl
  cases h

theorem StopPhase.isJoined_of_isWithdrawn {phase : StopPhase} (h : phase.isWithdrawn = true) :
  phase.isJoined = true
  := by
  cases phase with
  | cancelling | joining => cases h
  | _ => rfl

/-! ### Accounts -/

/-- An instance is withdrawn. -/
def Event.isDeregister : Event → Bool
  | .deregisters _ => true
  | _ => false

namespace App

variable {a a' : App} {i : ℕ}

/-- How often an instance has been withdrawn. -/
def deregistrations (a : App) : ℕ := a.log.countP Event.isDeregister

/-- The registration has succeeded, and nothing has been done about it. -/
def unobserved (a : App) : Bool :=
  decide (a.registration = .succeeded) &&
    (decide (a.startup = .registerWait) || decide (a.compensation = .orphaned))

/-- What holds of the registration, and of the sequences. -/
structure Accounted (a : App) : Prop where
  accounts : a.deregistrations + a.sequences.count .deregistering +
    (decide (a.compensation = .queued)).toNat + a.registeredInstance.toNat + a.unobserved.toNat =
      (decide (a.registration = .succeeded)).toNat
  calls : a.log.count .registers = if a.registration = .uncalled then 0 else 1
  uncalled : a.startup.isEarly = true ∨ a.startup = .registering →
    a.registration = .uncalled ∧ a.compensation = .none
  waiting : a.startup = .registerWait → a.compensation = .none
  pending : a.registration = .pending → a.startup = .registerWait ∨ a.compensation = .orphaned
  requested : a.sequences ≠ [] → a.stopRequested = true
  promise : a.startupPromise = true ∨ a.startup.isUnbegun = true ∨
    (a.startup = .beforeHooks 0 ∧ .run ∈ a.stack) ∨ a.startup.isSettled = true
  joined : ∀ phase ∈ a.sequences, phase.isJoined = true →
    a.startup.isSettled = true ∨ a.startupAbandoned = true ∨ a.startup.isEarly = true
  withdrawn : ∀ phase ∈ a.sequences, phase.isWithdrawn = true → a.registeredInstance = false
  ended : a.run = .ended → .ended ∈ a.sequences

theorem accounted_newApp :
  newApp.Accounted
  := by
  constructor
  case accounts => rfl
  case calls => rfl
  case uncalled => exact fun _ => ⟨rfl, rfl⟩
  case waiting => rintro ⟨⟩
  case pending => rintro ⟨⟩
  case requested => exact fun h => absurd rfl h
  case promise => exact .inr (.inl rfl)
  case joined => exact fun _ h => absurd h List.not_mem_nil
  case withdrawn => exact fun _ h => absurd h List.not_mem_nil
  case ended => rintro ⟨⟩

/-! ### Steps of the startup -/

/-- The books of an application, apart from the startup, are the same. -/
structure SameBooks (a a' : App) : Prop where
  deregistrations : a'.deregistrations = a.deregistrations
  calls : a'.log.count .registers = a.log.count .registers
  sequences : a'.sequences = a.sequences
  compensation : a'.compensation = a.compensation
  registeredInstance : a'.registeredInstance = a.registeredInstance
  registration : a'.registration = a.registration
  stopRequested : a'.stopRequested = a.stopRequested
  startupAbandoned : a'.startupAbandoned = a.startupAbandoned
  run : a'.run = .ended → a.run = .ended

/-- A step of the startup that is not about the registration. -/
theorem Accounted.proceed (h : a.Accounted) (hsame : a.SameBooks a')
    (hbefore : a.startup ≠ .registerWait) (hafter : a'.startup ≠ .registerWait)
    (huncalled : a'.startup.isEarly = true ∨ a'.startup = .registering →
      a.startup.isEarly = true ∨ a.startup = .registering)
    (hkept : a.startup.isSettled = true ∨ (a.startup.isEarly = true ∧ a.stopRequested = true) →
      a'.startup.isSettled = true ∨ a'.startup.isEarly = true)
    (hpromise : a'.startupPromise = true ∨ a'.startup.isUnbegun = true ∨
      (a'.startup = .beforeHooks 0 ∧ .run ∈ a'.stack) ∨ a'.startup.isSettled = true) :
  a'.Accounted
  := by
  have hunobserved : a'.unobserved = a.unobserved := by
    rw [unobserved, unobserved, hsame.registration, hsame.compensation, decide_eq_false hbefore,
      decide_eq_false hafter]
  constructor
  case accounts =>
    rw [hsame.deregistrations, hsame.sequences, hsame.compensation, hsame.registeredInstance,
      hsame.registration, hunobserved]
    exact h.accounts
  case calls =>
    rw [hsame.calls, hsame.registration]
    exact h.calls
  case uncalled =>
    intro hearly
    rw [hsame.registration, hsame.compensation]
    exact h.uncalled (huncalled hearly)
  case waiting => exact fun hwait => absurd hwait hafter
  case pending =>
    rw [hsame.registration, hsame.compensation]
    intro hpending
    obtain hwait | horphaned := h.pending hpending
    · exact absurd hwait hbefore
    · exact .inr horphaned
  case requested =>
    rw [hsame.sequences, hsame.stopRequested]
    exact h.requested
  case promise => exact hpromise
  case joined =>
    rw [hsame.sequences, hsame.startupAbandoned]
    intro phase hphase hjoined
    have hrequested := h.requested (List.ne_nil_of_mem hphase)
    obtain hsettled | habandoned | hearly := h.joined phase hphase hjoined
    · obtain hs | he := hkept (.inl hsettled)
      · exact .inl hs
      · exact .inr (.inr he)
    · exact .inr (.inl habandoned)
    · obtain hs | he := hkept (.inr ⟨hearly, hrequested⟩)
      · exact .inl hs
      · exact .inr (.inr he)
  case withdrawn =>
    rw [hsame.sequences, hsame.registeredInstance]
    exact h.withdrawn
  case ended =>
    rw [hsame.sequences]
    exact fun hended => h.ended (hsame.run hended)

theorem deregistrations_note (a : App) (event : Event) :
  (a.note event).deregistrations = a.deregistrations + event.isDeregister.toNat
  := by
  rw [deregistrations, note, List.countP_append, List.countP_singleton]
  cases event.isDeregister with
  | false | true => rfl

/-- Noting something else than a registration or a withdrawal. -/
theorem sameBooks_note {event : Event} (hderegister : event.isDeregister = false)
    (hregister : event ≠ .registers) :
  a.SameBooks (a.note event)
  := by
  constructor
  case deregistrations =>
    rw [deregistrations_note, hderegister]
    rfl
  case calls =>
    rw [note, List.count_append, List.count_singleton, if_neg (by simpa using hregister)]
    rfl
  case sequences => rfl
  case compensation => rfl
  case registeredInstance => rfl
  case registration => rfl
  case stopRequested => rfl
  case startupAbandoned => rfl
  case run => exact fun h => h

theorem SameBooks.trans {a'' : App} (h : a.SameBooks a') (h' : a'.SameBooks a'') :
  a.SameBooks a''
  := by
  constructor
  case deregistrations => exact h'.deregistrations.trans h.deregistrations
  case calls => exact h'.calls.trans h.calls
  case sequences => exact h'.sequences.trans h.sequences
  case compensation => exact h'.compensation.trans h.compensation
  case registeredInstance => exact h'.registeredInstance.trans h.registeredInstance
  case registration => exact h'.registration.trans h.registration
  case stopRequested => exact h'.stopRequested.trans h.stopRequested
  case startupAbandoned => exact h'.startupAbandoned.trans h.startupAbandoned
  case run => exact fun hended => h.run (h'.run hended)

/-- The startup, the servers, the stack and the progress of the run are in no book. -/
theorem sameBooks_of_log (hlog : a'.log = a.log) (hsequences : a'.sequences = a.sequences)
    (hcompensation : a'.compensation = a.compensation)
    (hinstance : a'.registeredInstance = a.registeredInstance)
    (hregistration : a'.registration = a.registration)
    (hrequested : a'.stopRequested = a.stopRequested)
    (habandoned : a'.startupAbandoned = a.startupAbandoned)
    (hrun : a'.run = .ended → a.run = .ended) :
  a.SameBooks a'
  := by
  constructor
  case deregistrations => rw [deregistrations, hlog]; rfl
  case calls => rw [hlog]
  case sequences => exact hsequences
  case compensation => exact hcompensation
  case registeredInstance => exact hinstance
  case registration => exact hregistration
  case stopRequested => exact hrequested
  case startupAbandoned => exact habandoned
  case run => exact hrun

/-- A startup whose promise is not known has begun nothing, or has settled. -/
theorem Accounted.promised (h : a.Accounted) (hstack : a.stack = [])
    (hbegun : a.startup.isUnbegun = false) (hsettled : a.startup.isSettled = false) :
  a.startupPromise = true
  := by
  obtain hpromise | hunbegun | ⟨-, hframe⟩ | hdone := h.promise
  · exact hpromise
  · rw [hbegun] at hunbegun
    cases hunbegun
  · rw [hstack] at hframe
    exact absurd hframe List.not_mem_nil
  · rw [hsettled] at hdone
    cases hdone

/-- The startup settles. -/
theorem Accounted.settle (h : a.Accounted) (hsame : a.SameBooks a')
    (hbefore : a.startup ≠ .registerWait) (hafter : a'.startup.isSettled = true) :
  a'.Accounted
  := by
  have hne : ∀ s : Startup, s.isSettled = false → a'.startup ≠ s := by
    rintro s hs rfl
    rw [hs] at hafter
    cases hafter
  apply h.proceed hsame hbefore (hne _ rfl)
  · rintro (hearly | hregistering)
    · cases hstartup : a'.startup with
      | settled succeeded =>
          rw [hstartup] at hearly
          cases hearly
      | _ => exact absurd hstartup (hne _ rfl)
    · exact absurd hregistering (hne _ rfl)
  · exact fun _ => .inl hafter
  · exact .inr (.inr (.inr hafter))

/-- The startup goes on before the registration. -/
theorem Accounted.advance (h : a.Accounted) (hsame : a.SameBooks a')
    (hbefore : a.startup.isEarly = true) (hafter : a'.startup.isEarly = true)
    (hpromise : a'.startupPromise = true ∨ a'.startup.isUnbegun = true ∨
      (a'.startup = .beforeHooks 0 ∧ .run ∈ a'.stack)) :
  a'.Accounted
  := by
  apply h.proceed hsame (Startup.ne_registerWait_of_early hbefore)
    (Startup.ne_registerWait_of_early hafter)
  · exact fun _ => .inl hbefore
  · exact fun _ => .inr hafter
  · obtain hknown | hunbegun | hframe := hpromise
    · exact .inl hknown
    · exact .inr (.inl hunbegun)
    · exact .inr (.inr (.inl hframe))

/-- The startup is behind the registration, or is registering. -/
theorem Accounted.continues (h : a.Accounted) (hsame : a.SameBooks a')
    (hbefore : a.startup ≠ .registerWait) (hrequested : a.startup.isSettled = true ∨
      (a.startup.isEarly = true ∧ a.stopRequested = true) → a'.startup.isSettled = true)
    (hafter : a'.startup ≠ .registerWait) (hearly : a'.startup.isEarly = false)
    (hregistering : a'.startup = .registering → a.startup.isEarly = true)
    (hpromise : a'.startupPromise = true) :
  a'.Accounted
  := by
  apply h.proceed hsame hbefore hafter
  · rintro (he | hr)
    · rw [hearly] at he
      cases he
    · exact .inl (hregistering hr)
  · exact fun hstopped => .inl (hrequested hstopped)
  · exact .inl hpromise

/-- The startup goes on behind the registration, which has not been begun. -/
theorem Accounted.startAfterHooks (h : a.Accounted) (hearly : a.startup.isEarly = true)
    (hpromise : a.startupPromise = true) :
  a.startAfterHooks.Accounted
  := by
  have hsame : a.SameBooks a.startAfterHooks :=
    sameBooks_of_log rfl rfl rfl rfl rfl rfl rfl (fun hended => hended)
  have hne := Startup.ne_registerWait_of_early hearly
  cases hrequested : a.stopRequested with
  | true =>
      apply h.settle hsame hne
      rw [App.startAfterHooks, hrequested]
      rfl
  | false =>
      have hstartup : a.startAfterHooks.startup = .afterHooks 0 := by
        rw [App.startAfterHooks, hrequested]
        rfl
      apply h.continues hsame hne
      · rintro (hsettled | ⟨-, hstop⟩)
        · cases hs : a.startup with
          | settled succeeded =>
              rw [hs] at hearly
              cases hearly
          | _ =>
              rw [hs] at hsettled
              cases hsettled
        · rw [hrequested] at hstop
          cases hstop
      · rw [hstartup]
        rintro ⟨⟩
      · rw [hstartup]
        rfl
      · rw [hstartup]
        rintro ⟨⟩
      · exact hpromise

/-- Nothing changes but what no book has. -/
theorem Accounted.same (h : a.Accounted) (hsame : a.SameBooks a')
    (hstartup : a'.startup = a.startup) (hpromise : a'.startupPromise = a.startupPromise)
    (hstack : .run ∈ a.stack → .run ∈ a'.stack) :
  a'.Accounted
  := by
  have hunobserved : a'.unobserved = a.unobserved := by
    rw [unobserved, unobserved, hsame.registration, hsame.compensation, hstartup]
  constructor
  case accounts =>
    rw [hsame.deregistrations, hsame.sequences, hsame.compensation, hsame.registeredInstance,
      hsame.registration, hunobserved]
    exact h.accounts
  case calls =>
    rw [hsame.calls, hsame.registration]
    exact h.calls
  case uncalled =>
    rw [hstartup, hsame.registration, hsame.compensation]
    exact h.uncalled
  case waiting =>
    rw [hstartup, hsame.compensation]
    exact h.waiting
  case pending =>
    rw [hstartup, hsame.registration, hsame.compensation]
    exact h.pending
  case requested =>
    rw [hsame.sequences, hsame.stopRequested]
    exact h.requested
  case promise =>
    rw [hstartup, hpromise]
    obtain hknown | hunbegun | ⟨hhooks, hframe⟩ | hsettled := h.promise
    · exact .inl hknown
    · exact .inr (.inl hunbegun)
    · exact .inr (.inr (.inl ⟨hhooks, hstack hframe⟩))
    · exact .inr (.inr (.inr hsettled))
  case joined =>
    rw [hstartup, hsame.sequences, hsame.startupAbandoned]
    exact h.joined
  case withdrawn =>
    rw [hsame.sequences, hsame.registeredInstance]
    exact h.withdrawn
  case ended =>
    rw [hsame.sequences]
    exact fun hended => h.ended (hsame.run hended)

/-! ### The registration -/

theorem Accounted.called (h : a.Accounted) (hstartup : a.startup = .registering)
    (hpromise : a.startupPromise = true) :
  Accounted ({ a with startup := .registerWait, registration := .pending }.note .registers)
  := by
  obtain ⟨huncalled, hnone⟩ := h.uncalled (.inr hstartup)
  have haccounts := h.accounts
  have hcalls := h.calls
  rw [huncalled] at haccounts hcalls
  constructor
  case accounts =>
    rw [unobserved, huncalled] at haccounts
    rw [deregistrations_note]
    exact haccounts
  case calls =>
    rw [note, List.count_append, hcalls]
    rfl
  case uncalled =>
    intro hearly
    obtain hearly | hregistering : Startup.isEarly .registerWait = true ∨
        Startup.registerWait = .registering := hearly
    · cases hearly
    · cases hregistering
  case waiting => exact fun _ => hnone
  case pending => exact fun _ => .inl rfl
  case requested => exact h.requested
  case promise => exact .inl hpromise
  case joined =>
    intro phase hphase hjoined
    have hbefore := h.joined phase hphase hjoined
    rw [hstartup] at hbefore
    obtain ⟨⟨⟩⟩ | habandoned | ⟨⟨⟩⟩ := hbefore
    exact .inr (.inl habandoned)
  case withdrawn => exact h.withdrawn
  case ended => exact h.ended

theorem Accounted.succeeds (h : a.Accounted) (hpending : a.registration = .pending) :
  Accounted { a with registration := .succeeded }
  := by
  have haccounts := h.accounts
  have hcalls := h.calls
  rw [hpending] at hcalls
  constructor
  case accounts =>
    have hunobserved : unobserved { a with registration := .succeeded } = true := by
      rw [unobserved]
      obtain hwait | horphaned := h.pending hpending
      · simp [hwait]
      · simp [horphaned]
    rw [unobserved, hpending] at haccounts
    rw [hunobserved]
    exact congrArg (· + 1) haccounts
  case calls => exact hcalls
  case uncalled =>
    intro hearly
    obtain ⟨huncalled, -⟩ := h.uncalled hearly
    rw [hpending] at huncalled
    cases huncalled
  case waiting => exact h.waiting
  case pending => rintro ⟨⟩
  case requested => exact h.requested
  case promise => exact h.promise
  case joined => exact h.joined
  case withdrawn => exact h.withdrawn
  case ended => exact h.ended

theorem Accounted.fails (h : a.Accounted) (hpending : a.registration = .pending) :
  Accounted { a with registration := .failed }
  := by
  have haccounts := h.accounts
  have hcalls := h.calls
  rw [hpending] at hcalls
  constructor
  case accounts =>
    rw [unobserved, hpending] at haccounts
    exact haccounts
  case calls => exact hcalls
  case uncalled =>
    intro hearly
    obtain ⟨huncalled, -⟩ := h.uncalled hearly
    rw [hpending] at huncalled
    cases huncalled
  case waiting => exact h.waiting
  case pending => rintro ⟨⟩
  case requested => exact h.requested
  case promise => exact h.promise
  case joined => exact h.joined
  case withdrawn => exact h.withdrawn
  case ended => exact h.ended

/-- The wait for the registration ends, which may have succeeded. -/
theorem Accounted.abandoned (h : a.Accounted) (hstartup : a.startup = .registerWait) :
  Accounted { a with startup := .settled false, compensation := .orphaned }
  := by
  have hnone := h.waiting hstartup
  have haccounts := h.accounts
  constructor
  case accounts =>
    have hunobserved : unobserved { a with startup := .settled false, compensation := .orphaned } =
        a.unobserved := by
      rw [unobserved, unobserved, hstartup]
      simp
    rw [hunobserved]
    rw [hnone] at haccounts
    exact haccounts
  case calls => exact h.calls
  case uncalled =>
    intro hearly
    obtain hearly | hregistering : Startup.isEarly (.settled false) = true ∨
        Startup.settled false = .registering := hearly
    · cases hearly
    · cases hregistering
  case waiting => rintro ⟨⟩
  case pending => exact fun _ => .inr rfl
  case requested => exact h.requested
  case promise => exact .inr (.inr (.inr rfl))
  case joined => exact fun _ _ _ => .inl rfl
  case withdrawn => exact h.withdrawn
  case ended => exact h.ended

/-- A registration that has succeeded behind its wait is to be withdrawn. -/
theorem Accounted.compensates (h : a.Accounted) (horphaned : a.compensation = .orphaned)
    (hsucceeded : a.registration = .succeeded) :
  Accounted { a with compensation := .queued }
  := by
  have hwait : a.startup ≠ .registerWait := by
    intro hwait
    have hnone := h.waiting hwait
    rw [horphaned] at hnone
    cases hnone
  have huncalled : ¬ (a.startup.isEarly = true ∨ a.startup = .registering) := by
    intro hearly
    have hregistration := (h.uncalled hearly).1
    rw [hsucceeded] at hregistration
    cases hregistration
  have haccounts := h.accounts
  constructor
  case accounts =>
    have hbefore : a.unobserved = true := by
      rw [unobserved, hsucceeded, horphaned]
      simp
    have hafter : unobserved { a with compensation := .queued } = false := by
      rw [unobserved]
      simp [hwait]
    rw [hbefore, horphaned] at haccounts
    rw [hafter, ← haccounts]
    exact Nat.add_right_comm _ 1 _
  case calls => exact h.calls
  case uncalled => exact fun hearly => absurd hearly huncalled
  case waiting => exact fun hw => absurd hw hwait
  case pending =>
    intro hpending
    rw [hsucceeded] at hpending
    cases hpending
  case requested => exact h.requested
  case promise => exact h.promise
  case joined => exact h.joined
  case withdrawn => exact h.withdrawn
  case ended => exact h.ended

/-- The compensation withdraws the instance. -/
theorem Accounted.compensated (h : a.Accounted) (hqueued : a.compensation = .queued) :
  Accounted ({ a with compensation := .called }.note (.deregisters false))
  := by
  have hwait : a.startup ≠ .registerWait := by
    intro hwait
    have hnone := h.waiting hwait
    rw [hqueued] at hnone
    cases hnone
  have huncalled : ¬ (a.startup.isEarly = true ∨ a.startup = .registering) := by
    intro hearly
    have hcompensation := (h.uncalled hearly).2
    rw [hqueued] at hcompensation
    cases hcompensation
  have haccounts := h.accounts
  constructor
  case accounts =>
    have hbefore : a.unobserved = false := by
      rw [unobserved, hqueued]
      simp [hwait]
    have hafter : unobserved ({ a with compensation := .called }.note (.deregisters false)) =
        false := by
      rw [unobserved, note]
      simp [hwait]
    rw [hbefore, hqueued] at haccounts
    rw [hafter, deregistrations_note]
    refine Eq.trans ?_ haccounts
    change a.deregistrations + 1 + a.sequences.count .deregistering + 0 +
      a.registeredInstance.toNat + 0 = a.deregistrations + a.sequences.count .deregistering + 1 +
      a.registeredInstance.toNat + 0
    omega
  case calls =>
    rw [note, List.count_append]
    exact h.calls
  case uncalled => exact fun hearly => absurd hearly huncalled
  case waiting => exact fun hw => absurd hw hwait
  case pending =>
    intro hpending
    obtain hw | horphaned := h.pending hpending
    · exact absurd hw hwait
    · rw [hqueued] at horphaned
      cases horphaned
  case requested => exact h.requested
  case promise => exact h.promise
  case joined => exact h.joined
  case withdrawn => exact h.withdrawn
  case ended => exact h.ended

/-- Behind the registration, it is neither begun nor waited for. -/
theorem startup_startAfterHooks (a : App) :
  a.startAfterHooks.startup.isEarly = false ∧ a.startAfterHooks.startup ≠ .registering ∧
    a.startAfterHooks.startup ≠ .registerWait
  := by
  rw [App.startAfterHooks]
  cases a.stopRequested with
  | false | true =>
      refine ⟨rfl, ?_, ?_⟩
      · rintro ⟨⟩
      · rintro ⟨⟩

/-- The registration is known to have succeeded, and the instance is held or is to be withdrawn. -/
theorem Accounted.observed (h : a.Accounted) (hstartup : a.startup = .registerWait)
    (hsucceeded : a.registration = .succeeded) (hpromise : a.startupPromise = true) {b : App}
    (haccounts : b.deregistrations + b.sequences.count .deregistering +
      (decide (b.compensation = .queued)).toNat + b.registeredInstance.toNat = 1)
    (hlog : b.log = a.log) (hsequences : b.sequences = a.sequences)
    (hregistration : b.registration = a.registration) (hcompensation : b.compensation ≠ .orphaned)
    (hrequested : b.stopRequested = a.stopRequested)
    (habandoned : b.startupAbandoned = a.startupAbandoned)
    (hknown : b.startupPromise = a.startupPromise) (hrun : b.run = a.run)
    (hinstance : a.startupAbandoned = true → b.registeredInstance = a.registeredInstance) :
  b.startAfterHooks.Accounted
  := by
  obtain ⟨hearly, hregistering, hwait⟩ := b.startup_startAfterHooks
  have hjoined : ∀ phase ∈ a.sequences, phase.isJoined = true → a.startupAbandoned = true := by
    intro phase hphase hj
    have hbefore := h.joined phase hphase hj
    rw [hstartup] at hbefore
    obtain ⟨⟨⟩⟩ | hab | ⟨⟨⟩⟩ := hbefore
    exact hab
  constructor
  case accounts =>
    have hunobserved : b.startAfterHooks.unobserved = false := by
      rw [unobserved, decide_eq_false hwait, App.startAfterHooks, decide_eq_false hcompensation,
        Bool.or_self, Bool.and_false]
    rw [hunobserved, App.startAfterHooks, hregistration, hsucceeded]
    exact haccounts
  case calls =>
    rw [App.startAfterHooks, hlog, hregistration]
    exact h.calls
  case uncalled =>
    rintro (he | hr)
    · rw [hearly] at he
      cases he
    · exact absurd hr hregistering
  case waiting => exact fun hw => absurd hw hwait
  case pending =>
    rw [App.startAfterHooks, hregistration, hsucceeded]
    rintro ⟨⟩
  case requested =>
    rw [App.startAfterHooks, hsequences, hrequested]
    exact h.requested
  case promise => exact .inl (hknown.trans hpromise)
  case joined =>
    rw [App.startAfterHooks, hsequences, habandoned]
    exact fun phase hphase hj => .inr (.inl (hjoined phase hphase hj))
  case withdrawn =>
    rw [App.startAfterHooks, hsequences]
    intro phase hphase hwithdrawn
    rw [hinstance (hjoined phase hphase (StopPhase.isJoined_of_isWithdrawn hwithdrawn))]
    exact h.withdrawn phase hphase hwithdrawn
  case ended =>
    rw [App.startAfterHooks, hsequences, hrun]
    exact h.ended

theorem Accounted.registered (h : a.Accounted) (hstartup : a.startup = .registerWait)
    (hsucceeded : a.registration = .succeeded) (hpromise : a.startupPromise = true) :
  a.registered.Accounted
  := by
  have hnone := h.waiting hstartup
  have haccounts : a.deregistrations + a.sequences.count .deregistering + 0 +
      a.registeredInstance.toNat + 1 = 1 := by
    have hbefore := h.accounts
    rw [unobserved, hsucceeded, hnone, hstartup] at hbefore
    exact hbefore
  rw [App.registered]
  split
  case isTrue habandoned =>
    refine h.observed hstartup hsucceeded hpromise ?_ rfl rfl rfl ?_ rfl rfl rfl rfl
      (fun _ => rfl)
    · change a.deregistrations + a.sequences.count .deregistering + 1 +
        a.registeredInstance.toNat = 1
      omega
    · rintro ⟨⟩
  case isFalse habandoned =>
    refine h.observed hstartup hsucceeded hpromise ?_ rfl rfl rfl ?_ rfl rfl rfl rfl
      (fun hab => absurd hab habandoned)
    · change a.deregistrations + a.sequences.count .deregistering +
        (decide (a.compensation = .queued)).toNat + 1 = 1
      rw [hnone]
      change a.deregistrations + a.sequences.count .deregistering + 0 + 1 = 1
      omega
    · rw [hnone]
      rintro ⟨⟩

/-- The startup goes on behind the registration. -/
theorem Accounted.afterHooks (h : a.Accounted) {ended : ℕ} (hstartup : a.startup = .afterHooks ended)
    (hpromise : a.startupPromise = true) {startup : Startup}
    (hafter : (∃ n, startup = .afterHooks n) ∨ startup.isSettled = true) :
  Accounted { a with startup := startup }
  := by
  have hsame : a.SameBooks { a with startup := startup } :=
    sameBooks_of_log rfl rfl rfl rfl rfl rfl rfl (fun hended => hended)
  have hbefore : a.startup ≠ .registerWait := by
    rw [hstartup]
    rintro ⟨⟩
  obtain ⟨n, rfl⟩ | hsettled := hafter
  · apply h.continues hsame hbefore
    · rw [hstartup]
      rintro (⟨⟨⟩⟩ | ⟨⟨⟩, -⟩)
    · rintro ⟨⟩
    · rfl
    · rintro ⟨⟩
    · exact hpromise
  · exact h.settle hsame hbefore hsettled

/-! ### Steps of the stop sequence -/

theorem mem_set_of_ne {α : Type} {l : List α} {i : ℕ} {old new x : α} (h : l[i]? = some old)
    (hx : x ∈ l) (hne : x ≠ old) :
  x ∈ l.set i new
  := by
  obtain ⟨j, hj⟩ := List.mem_iff_getElem?.mp hx
  apply List.mem_iff_getElem?.mpr
  use j
  rw [List.getElem?_set_ne, hj]
  rintro rfl
  rw [h] at hj
  exact hne (Option.some.inj hj).symm

/-- A stop sequence goes on without a withdrawal. -/
theorem Accounted.setPhase (h : a.Accounted) {old new : StopPhase}
    (hphase : a.sequences[i]? = some old) (hold : old ≠ .deregistering)
    (hnew : new ≠ .deregistering) (hended : old ≠ .ended)
    (hjoined : new.isJoined = true → old.isJoined = true ∨ a.startup.isSettled = true ∨
      a.startupAbandoned = true ∨ a.startup.isEarly = true)
    (hwithdrawn : new.isWithdrawn = true → old.isWithdrawn = true ∨ a.registeredInstance = false) :
  (a.setPhase i new).Accounted
  := by
  have hmem : old ∈ a.sequences := List.mem_of_getElem? hphase
  constructor
  case accounts =>
    have hcount : (a.sequences.set i new).count .deregistering =
        a.sequences.count .deregistering := by
      have hset := count_set_add hphase new .deregistering
      rw [if_neg hold, if_neg hnew] at hset
      exact hset
    rw [App.setPhase, hcount]
    exact h.accounts
  case calls => exact h.calls
  case uncalled => exact h.uncalled
  case waiting => exact h.waiting
  case pending => exact h.pending
  case requested => exact fun _ => h.requested (List.ne_nil_of_mem hmem)
  case promise => exact h.promise
  case joined =>
    intro phase hp hj
    obtain hp | rfl := List.mem_or_eq_of_mem_set hp
    · exact h.joined phase hp hj
    · obtain ho | hbefore := hjoined hj
      · exact h.joined old hmem ho
      · exact hbefore
  case withdrawn =>
    intro phase hp hw
    obtain hp | rfl := List.mem_or_eq_of_mem_set hp
    · exact h.withdrawn phase hp hw
    · obtain ho | hbefore := hwithdrawn hw
      · exact h.withdrawn old hmem ho
      · exact hbefore
  case ended => exact fun hrun => mem_set_of_ne hphase (h.ended hrun) hended.symm

/-- A stop sequence that has withdrawn the instance goes on. -/
theorem Accounted.goOn (h : a.Accounted) {old new : StopPhase}
    (hphase : a.sequences[i]? = some old) (hold : old.isWithdrawn = true)
    (hne : old ≠ .deregistering) (hnew : new ≠ .deregistering) (hended : old ≠ .ended) :
  (a.setPhase i new).Accounted
  := by
  apply h.setPhase hphase hne hnew hended
  · exact fun _ => .inl (StopPhase.isJoined_of_isWithdrawn hold)
  · exact fun _ => .inl hold

/-- The next hook before the stop is called. -/
theorem Accounted.beforeStopHook (h : a.Accounted) {old : StopPhase} {hook : ℕ}
    (hphase : a.sequences[i]? = some old) (hold : old ≠ .deregistering) (hended : old ≠ .ended)
    (hjoined : old.isJoined = true ∨ a.startup.isSettled = true ∨
      a.startupAbandoned = true ∨ a.startup.isEarly = true) :
  (a.beforeStopHook cfg i hook).Accounted
  := by
  have hset : ∀ b : App, b.Accounted → b.sequences = a.sequences → b.startup = a.startup →
      b.startupAbandoned = a.startupAbandoned → (b.setPhase i (.beforeHooks hook)).Accounted := by
    intro b hb hsequences hstartup habandoned
    have hbphase : b.sequences[i]? = some old := by
      rw [hsequences]
      exact hphase
    refine hb.setPhase hbphase hold ?_ hended (fun _ => ?_) ?_
    · rintro ⟨⟩
    · rw [hstartup, habandoned]
      exact hjoined
    · rintro ⟨⟩
  rw [App.beforeStopHook]
  split
  · refine hset _ (h.same (sameBooks_note rfl ?_) rfl rfl (fun hframe => hframe)) rfl rfl rfl
    rintro ⟨⟩
  · exact hset a h rfl rfl rfl

/-- The next hook after the stop is called. -/
theorem Accounted.afterStopHook (h : a.Accounted) {old : StopPhase} {hook : ℕ}
    (hphase : a.sequences[i]? = some old) (hold : old.isWithdrawn = true)
    (hne : old ≠ .deregistering) (hended : old ≠ .ended) :
  (a.afterStopHook cfg i hook).Accounted
  := by
  have hnew : StopPhase.afterHooks hook ≠ .deregistering := by
    rintro ⟨⟩
  rw [App.afterStopHook]
  split
  · have hnote : (a.note (.afterStop hook)).Accounted := by
      refine h.same (sameBooks_note rfl ?_) rfl rfl (fun hframe => hframe)
      rintro ⟨⟩
    exact hnote.goOn hphase hold hne hnew hended
  · exact h.goOn hphase hold hne hnew hended

/-- A stop sequence comes to its first wait. -/
theorem Accounted.returnStop (h : a.Accounted) {stack : List Frame}
    (hstack : .run ∈ a.stack → .run ∈ stack) :
  (a.returnStop i stack).Accounted
  := by
  refine h.same ?_ rfl rfl hstack
  exact sameBooks_of_log rfl rfl rfl rfl rfl rfl rfl (fun hended => hended)

/-- A startup whose promise is not known does not register. -/
theorem Accounted.unpromised (h : a.Accounted) (hpromise : a.startupPromise = false) :
  a.startup.isSettled = true ∨ a.startupAbandoned = true ∨ a.startup.isEarly = true
  := by
  obtain hknown | hunbegun | ⟨hhooks, -⟩ | hsettled := h.promise
  · rw [hpromise] at hknown
    cases hknown
  · cases hstartup : a.startup with
    | idle | installing => exact .inr (.inr rfl)
    | _ =>
        rw [hstartup] at hunbegun
        cases hunbegun
  · rw [hhooks]
    exact .inr (.inr rfl)
  · exact .inl hsettled

/-- The context has been canceled. -/
theorem Accounted.joinStartup (h : a.Accounted) {stack : List Frame}
    (hphase : a.sequences[i]? = some .cancelling) (hstack : .run ∈ a.stack → .run ∈ stack) :
  (a.joinStartup cfg i stack).Accounted
  := by
  have hregistering : StopPhase.cancelling ≠ .deregistering := by
    rintro ⟨⟩
  have hended : StopPhase.cancelling ≠ .ended := by
    rintro ⟨⟩
  rw [App.joinStartup]
  split
  case isTrue =>
    have hjoining : (a.setPhase i .joining).Accounted := by
      refine h.setPhase hphase hregistering ?_ hended ?_ ?_
      · rintro ⟨⟩
      · rintro ⟨⟩
      · rintro ⟨⟩
    exact hjoining.returnStop hstack
  case isFalse hpromise =>
    have hhook : (a.beforeStopHook cfg i 0).Accounted :=
      h.beforeStopHook hphase hregistering hended
        (.inr (h.unpromised (Bool.eq_false_iff.mpr hpromise)))
    split
    · apply hhook.returnStop
      have hsame : (a.beforeStopHook cfg i 0).stack = a.stack := by
        rw [App.beforeStopHook]
        split
        · rfl
        · rfl
      rw [hsame]
      exact hstack
    · exact hhook

/-- The instance that is held is to be withdrawn. -/
theorem Accounted.withdraw (h : a.Accounted) {hooks : ℕ}
    (hphase : a.sequences[i]? = some (.beforeHooks hooks)) :
  (a.withdraw i).Accounted
  := by
  have hmem := List.mem_of_getElem? hphase
  have hended : StopPhase.beforeHooks hooks ≠ .ended := by
    rintro ⟨⟩
  rw [App.withdraw]
  split
  case isTrue hheld =>
    have haccounts := h.accounts
    rw [hheld] at haccounts
    have hcount : (a.sequences.set i .deregistering).count .deregistering + 0 =
        a.sequences.count .deregistering + 1 :=
      count_set_add hphase .deregistering .deregistering
    constructor
    case accounts =>
      refine Eq.trans ?_ haccounts
      change a.deregistrations + (a.sequences.set i .deregistering).count .deregistering +
        (decide (a.compensation = .queued)).toNat + 0 + a.unobserved.toNat = a.deregistrations +
        a.sequences.count .deregistering + (decide (a.compensation = .queued)).toNat + 1 +
        a.unobserved.toNat
      omega
    case calls => exact h.calls
    case uncalled => exact h.uncalled
    case waiting => exact h.waiting
    case pending => exact h.pending
    case requested => exact fun _ => h.requested (List.ne_nil_of_mem hmem)
    case promise => exact h.promise
    case joined =>
      intro phase hp hj
      obtain hp | rfl := List.mem_or_eq_of_mem_set hp
      · exact h.joined phase hp hj
      · exact h.joined _ hmem rfl
    case withdrawn => exact fun _ _ _ => rfl
    case ended => exact fun hrun => mem_set_of_ne hphase (h.ended hrun) hended.symm
  case isFalse hheld =>
    refine h.setPhase hphase ?_ ?_ hended (fun _ => .inl rfl)
      (fun _ => .inr (Bool.eq_false_iff.mpr hheld))
    · rintro ⟨⟩
    · rintro ⟨⟩

/-- A stop sequence withdraws the instance. -/
theorem Accounted.deregisterCalled (h : a.Accounted)
    (hphase : a.sequences[i]? = some .deregistering) :
  ((a.note (.deregisters true)).setPhase i .deregisterWait).Accounted
  := by
  have hmem := List.mem_of_getElem? hphase
  have hcount : (a.sequences.set i .deregisterWait).count .deregistering + 1 =
      a.sequences.count .deregistering + 0 :=
    count_set_add hphase .deregisterWait .deregistering
  constructor
  case accounts =>
    have hnote : ((a.note (.deregisters true)).setPhase i .deregisterWait).deregistrations =
        a.deregistrations + 1 := deregistrations_note a (.deregisters true)
    rw [hnote]
    refine Eq.trans ?_ h.accounts
    change a.deregistrations + 1 + (a.sequences.set i .deregisterWait).count .deregistering +
      (decide (a.compensation = .queued)).toNat + a.registeredInstance.toNat +
      a.unobserved.toNat = a.deregistrations + a.sequences.count .deregistering +
      (decide (a.compensation = .queued)).toNat + a.registeredInstance.toNat + a.unobserved.toNat
    omega
  case calls =>
    rw [App.setPhase, note, List.count_append]
    exact h.calls
  case uncalled => exact h.uncalled
  case waiting => exact h.waiting
  case pending => exact h.pending
  case requested => exact fun _ => h.requested (List.ne_nil_of_mem hmem)
  case promise => exact h.promise
  case joined =>
    intro phase hp hj
    obtain hp | rfl := List.mem_or_eq_of_mem_set hp
    · exact h.joined phase hp hj
    · exact h.joined _ hmem rfl
  case withdrawn =>
    intro phase hp hw
    obtain hp | rfl := List.mem_or_eq_of_mem_set hp
    · exact h.withdrawn phase hp hw
    · exact h.withdrawn _ hmem rfl
  case ended =>
    refine fun hrun => mem_set_of_ne hphase (h.ended hrun) ?_
    rintro ⟨⟩

/-- The servers are stopped. -/
theorem Accounted.stopServers (h : a.Accounted) (hphase : a.sequences[i]? = some .stopping) :
  (a.stopServers cfg i).Accounted
  := by
  have hne : StopPhase.stopping ≠ .deregistering := by
    rintro ⟨⟩
  have hended : StopPhase.stopping ≠ .ended := by
    rintro ⟨⟩
  rw [App.stopServers]
  split
  · have hstops : ∀ servers : List ℕ, Accounted
        { a with log := a.log ++ servers.map Event.stops } := by
      intro servers
      refine h.same ?_ rfl rfl (fun hframe => hframe)
      constructor
      case deregistrations =>
        have hnone : (servers.map Event.stops).countP Event.isDeregister = 0 := by
          rw [List.countP_eq_zero]
          intro event hevent
          obtain ⟨server, -, rfl⟩ := List.mem_map.mp hevent
          exact Bool.false_ne_true
        rw [deregistrations, List.countP_append, hnone]
        rfl
      case calls =>
        have hnone : (servers.map Event.stops).count .registers = 0 := by
          apply List.count_eq_zero_of_not_mem
          intro hevent
          obtain ⟨server, -, ⟨⟩⟩ := List.mem_map.mp hevent
        rw [List.count_append, hnone]
        rfl
      case sequences => rfl
      case compensation => rfl
      case registeredInstance => rfl
      case registration => rfl
      case stopRequested => rfl
      case startupAbandoned => rfl
      case run => exact fun hrun => hrun
    refine (hstops _).goOn hphase rfl hne ?_ hended
    rintro ⟨⟩
  · refine h.goOn hphase rfl hne ?_ hended
    rintro ⟨⟩

/-- The startup is given up. -/
theorem Accounted.giveUp (h : a.Accounted) :
  Accounted { a with startupAbandoned := true }
  := by
  constructor
  case accounts => exact h.accounts
  case calls => exact h.calls
  case uncalled => exact h.uncalled
  case waiting => exact h.waiting
  case pending => exact h.pending
  case requested => exact h.requested
  case promise => exact h.promise
  case joined => exact fun _ _ _ => .inr (.inl rfl)
  case withdrawn => exact h.withdrawn
  case ended => exact h.ended

theorem Accounted.requestStop (h : a.Accounted) :
  a.requestStop.Accounted ∧ a.requestStop.stopRequested = true
  := by
  rw [App.requestStop]
  split
  case isTrue hrequested => exact ⟨h, hrequested⟩
  case isFalse =>
    refine ⟨?_, rfl⟩
    constructor
    case accounts =>
      rw [deregistrations_note]
      exact h.accounts
    case calls =>
      rw [note, List.count_append]
      exact h.calls
    case uncalled => exact h.uncalled
    case waiting => exact h.waiting
    case pending => exact h.pending
    case requested => exact fun _ => rfl
    case promise => exact h.promise
    case joined => exact h.joined
    case withdrawn => exact h.withdrawn
    case ended => exact h.ended

/-- `stop` is called. -/
theorem Accounted.stopApp (h : a.Accounted) :
  a.stopApp.Accounted
  := by
  obtain ⟨hrequest, hrequested⟩ := h.requestStop
  rw [App.stopApp]
  generalize a.requestStop = b at hrequest hrequested
  split
  · exact hrequest
  · constructor
    case accounts =>
      rw [List.count_append]
      exact hrequest.accounts
    case calls => exact hrequest.calls
    case uncalled => exact hrequest.uncalled
    case waiting => exact hrequest.waiting
    case pending => exact hrequest.pending
    case requested => exact fun _ => hrequested
    case promise =>
      obtain hknown | hunbegun | ⟨hhooks, hframe⟩ | hsettled := hrequest.promise
      · exact .inl hknown
      · exact .inr (.inl hunbegun)
      · exact .inr (.inr (.inl ⟨hhooks, List.mem_cons_of_mem _ hframe⟩))
      · exact .inr (.inr (.inr hsettled))
    case joined =>
      intro phase hp hj
      obtain hp | hp := List.mem_append.mp hp
      · exact hrequest.joined phase hp hj
      · rw [List.mem_singleton.mp hp] at hj
        cases hj
    case withdrawn =>
      intro phase hp hw
      obtain hp | hp := List.mem_append.mp hp
      · exact hrequest.withdrawn phase hp hw
      · rw [List.mem_singleton.mp hp] at hw
        cases hw
    case ended => exact fun hrun => List.mem_append_left _ (hrequest.ended hrun)

/-! ### Runs -/

theorem Accounted.executeStart (h : a.Accounted) {stack : List Frame}
    (hstack : a.stack = .run :: stack) (hstartup : a.startup = .installing) :
  (a.executeStart cfg stack).Accounted
  := by
  have hbefore : a.startup.isEarly = true := by
    rw [hstartup]
    rfl
  rw [App.executeStart]
  split
  · exact h.advance (sameBooks_of_log rfl rfl rfl rfl rfl rfl rfl (fun hrun => hrun)) hbefore rfl
      (.inl rfl)
  · split
    · exact h.advance (sameBooks_of_log rfl rfl rfl rfl rfl rfl rfl (fun hrun => hrun)) hbefore rfl
        (.inl rfl)
    · refine h.advance (sameBooks_of_log rfl rfl rfl rfl rfl rfl rfl (fun hrun => hrun)) hbefore rfl
        (.inr (.inr ⟨rfl, ?_⟩))
      dsimp only
      rw [hstack]
      exact List.mem_cons_self

theorem Accounted.launch (h : a.Accounted) (hbefore : a.startup.isEarly = true)
    (hpromise : a.startupPromise = true) :
  (a.launch cfg).Accounted
  := by
  rw [App.launch]
  split
  · exact h.advance (sameBooks_of_log rfl rfl rfl rfl rfl rfl rfl (fun hrun => hrun)) hbefore rfl
      (.inl hpromise)
  · split
    · exact h.advance (sameBooks_of_log rfl rfl rfl rfl rfl rfl rfl (fun hrun => hrun)) hbefore rfl
        (.inl hpromise)
    · refine h.advance (.trans ?_ (sameBooks_note rfl ?_)) hbefore rfl (.inl hpromise)
      · exact sameBooks_of_log rfl rfl rfl rfl rfl rfl rfl (fun hrun => hrun)
      · rintro ⟨⟩

theorem Accounted.buildNext (h : a.Accounted) (visited : ℕ) (hbefore : a.startup.isEarly = true)
    (hpromise : a.startupPromise = true) :
  (a.buildNext cfg visited).Accounted
  := by
  rw [App.buildNext]
  split
  · exact h.advance (sameBooks_of_log rfl rfl rfl rfl rfl rfl rfl (fun hrun => hrun)) hbefore rfl
      (.inl hpromise)
  · split
    · refine h.advance (.trans ?_ (sameBooks_note rfl ?_)) hbefore rfl (.inl hpromise)
      · exact sameBooks_of_log rfl rfl rfl rfl rfl rfl rfl (fun hrun => hrun)
      · rintro ⟨⟩
    · exact h.advance (sameBooks_of_log rfl rfl rfl rfl rfl rfl rfl (fun hrun => hrun)) hbefore rfl
        (.inl hpromise)

theorem Accounted.startBuilding (h : a.Accounted) (hbefore : a.startup.isEarly = true)
    (hpromise : a.startupPromise = true) :
  (a.startBuilding cfg).Accounted
  := by
  rw [App.startBuilding]
  split
  · refine h.advance (sameBooks_of_log rfl rfl rfl rfl rfl rfl rfl (fun hrun => hrun)) hbefore ?_
      (.inl hpromise)
    cases cfg.hasEndpoints with
    | false | true => rfl
  · exact h.startAfterHooks hbefore hpromise

theorem Accounted.register (h : a.Accounted) (hstartup : a.startup = .built)
    (hpromise : a.startupPromise = true) :
  a.register.Accounted
  := by
  have hbefore : a.startup.isEarly = true := by
    rw [hstartup]
    rfl
  rw [App.register]
  split
  case isTrue => exact h.startAfterHooks hbefore hpromise
  case isFalse hrequested =>
    refine h.continues (sameBooks_of_log rfl rfl rfl rfl rfl rfl rfl (fun hrun => hrun))
      (Startup.ne_registerWait_of_early hbefore) ?_ ?_ rfl (fun _ => hbefore) hpromise
    · rintro (hsettled | ⟨-, hstop⟩)
      · rw [hstartup] at hsettled
        cases hsettled
      · exact absurd hstop hrequested
    · rintro ⟨⟩

/-- A step keeps the accounts. -/
theorem Accounted.step (h : a.Accounted) (hstep : AppStep cfg a a') :
  a'.Accounted
  := by
  have hearly : ∀ {s : Startup}, a.startup = s → s.isEarly = true → a.startup.isEarly = true := by
    rintro s hs hearly
    rw [hs]
    exact hearly
  have hpromised : ∀ {s : Startup}, a.stack = [] → a.startup = s → s.isUnbegun = false →
      s.isSettled = false → a.startupPromise = true := by
    rintro s hstack hs hbegun hsettled
    apply h.promised hstack
    · rw [hs]
      exact hbegun
    · rw [hs]
      exact hsettled
  have hwait : ∀ {s : Startup}, a.startup = s → s ≠ .registerWait → a.startup ≠ .registerWait := by
    rintro s hs hne
    rw [hs]
    exact hne
  have hpop : ∀ {i : ℕ} {stack : List Frame}, a.stack = .stop i :: stack →
      .run ∈ a.stack → .run ∈ stack := by
    intro i stack hstack hframe
    rw [hstack] at hframe
    apply (List.mem_cons.mp hframe).resolve_left
    rintro ⟨⟩
  have hlaunching : ∀ {started : ℕ}, a.startup = .launching started → a.startupPromise = true := by
    intro started hs
    have hpromise := h.promise
    rw [hs] at hpromise
    obtain hknown | ⟨⟨⟩⟩ | ⟨⟨⟩, -⟩ | ⟨⟨⟩⟩ := hpromise
    exact hknown
  cases hstep with
  | runs hstartup =>
      refine h.advance (sameBooks_of_log rfl rfl rfl rfl rfl rfl rfl ?_) (hearly hstartup rfl) rfl
        (.inr (.inl rfl))
      rintro ⟨⟩
  | installFails hstack hstartup | hookFails hstack hstartup hended
  | launchedFails hstack hstartup hfailed =>
      refine h.settle (sameBooks_of_log rfl rfl rfl rfl rfl rfl rfl (fun hrun => hrun))
        (hwait hstartup ?_) rfl
      rintro ⟨⟩
  | installed hstack hstartup => exact h.executeStart hstack hstartup
  | firstHookReturns hstack hstartup =>
      exact h.advance (sameBooks_of_log rfl rfl rfl rfl rfl rfl rfl (fun hrun => hrun))
        (hearly hstartup rfl) (hearly hstartup rfl) (.inl rfl)
  | hookEnds hstack hstartup hended | endpointResolves hstack hstartup =>
      exact h.advance (sameBooks_of_log rfl rfl rfl rfl rfl rfl rfl (fun hrun => hrun))
        (hearly hstartup rfl) rfl (.inl (hpromised hstack hstartup rfl rfl))
  | launches hstack hstartup =>
      exact h.launch (hearly hstartup rfl) (hpromised hstack hstartup rfl rfl)
  | launchesNext hstack hstartup hstarted =>
      refine h.advance (.trans ?_ (sameBooks_note rfl ?_)) (hearly hstartup rfl) rfl
        (.inl (hlaunching hstartup))
      · exact sameBooks_of_log rfl rfl rfl rfl rfl rfl rfl (fun hrun => hrun)
      · rintro ⟨⟩
  | launchEnds hstack hstartup hstarted =>
      exact h.advance (sameBooks_of_log rfl rfl rfl rfl rfl rfl rfl (fun hrun => hrun))
        (hearly hstartup rfl) rfl (.inl (hlaunching hstartup))
  | serverFails hlaunched =>
      exact h.same (sameBooks_of_log rfl rfl rfl rfl rfl rfl rfl (fun hrun => hrun)) rfl rfl
        (fun hframe => hframe)
  | builds hstack hstartup hfailed =>
      exact h.startBuilding (hearly hstartup rfl) (hpromised hstack hstartup rfl rfl)
  | buildsNext hstack hstartup =>
      exact h.buildNext _ (hearly hstartup rfl) (hpromised hstack hstartup rfl rfl)
  | buildFails hstack hstartup =>
      refine h.settle (sameBooks_of_log rfl rfl rfl rfl rfl rfl rfl (fun hrun => hrun)) ?_ rfl
      intro hw
      rw [hw] at hstartup
      cases hstartup
  | registers hstack hstartup => exact h.register hstartup (hpromised hstack hstartup rfl rfl)
  | registerCalled hstack hstartup => exact h.called hstartup (hpromised hstack hstartup rfl rfl)
  | registerSucceeds hregistration => exact h.succeeds hregistration
  | registerFails hregistration => exact h.fails hregistration
  | registered hstack hstartup hregistration =>
      exact h.registered hstartup hregistration (hpromised hstack hstartup rfl rfl)
  | registerAbandoned hstack hstartup => exact h.abandoned hstartup
  | compensates hstack hcompensation hregistration => exact h.compensates hcompensation hregistration
  | compensated hstack hcompensation => exact h.compensated hcompensation
  | afterHookEnds hstack hstartup =>
      apply h.afterHooks hstartup (hpromised hstack hstartup rfl rfl)
      split
      · exact .inl ⟨_, rfl⟩
      · exact .inr rfl
  | afterHookFails hstack hstartup hended =>
      exact h.afterHooks hstartup (hpromised hstack hstartup rfl rfl) (.inr rfl)
  | stops => exact h.stopApp
  | cancelled hstack hphase => exact h.joinStartup hphase (hpop hstack)
  | firstStopHookReturns hstack hphase => exact h.returnStop (hpop hstack)
  | joins hstack hphase hstartup =>
      refine h.beforeStopHook hphase ?_ ?_ (.inr (.inl hstartup))
      · rintro ⟨⟩
      · rintro ⟨⟩
  | abandons hstack hphase htimeout =>
      refine h.giveUp.beforeStopHook hphase ?_ ?_ (.inr (.inr (.inl rfl)))
      · rintro ⟨⟩
      · rintro ⟨⟩
  | stopHookEnds hstack hphase hended =>
      refine h.beforeStopHook hphase ?_ ?_ (.inl rfl)
      · rintro ⟨⟩
      · rintro ⟨⟩
  | withdraws hstack hphase => exact h.withdraw hphase
  | deregisterCalled hstack hphase => exact h.deregisterCalled hphase
  | deregisterEnds hstack hphase | stopWaitEnds hstack hphase | stopEnds hstack hphase =>
      refine h.goOn hphase rfl ?_ ?_ ?_
      · rintro ⟨⟩
      · rintro ⟨⟩
      · rintro ⟨⟩
  | stopsServers hstack hphase => exact h.stopServers hphase
  | serversSettle hstack hphase =>
      have hnote : (a.note .waited).Accounted := by
        refine h.same (sameBooks_note rfl ?_) rfl rfl (fun hframe => hframe)
        rintro ⟨⟩
      refine hnote.afterStopHook hphase rfl ?_ ?_
      · rintro ⟨⟩
      · rintro ⟨⟩
  | afterStopHookEnds hstack hphase hended =>
      refine h.afterStopHook hphase rfl ?_ ?_
      · rintro ⟨⟩
      · rintro ⟨⟩
  | raceEnds hstack hrun hrace =>
      have hstopping : Accounted { a with run := .stopping } := by
        refine h.same (sameBooks_of_log rfl rfl rfl rfl rfl rfl rfl ?_) rfl rfl
          (fun hframe => hframe)
        rintro ⟨⟩
      exact hstopping.stopApp
  | runEnds hstack hrun hpromise hphase =>
      exact ⟨h.accounts, h.calls, h.uncalled, h.waiting, h.pending, h.requested, h.promise,
        h.joined, h.withdrawn, fun _ => List.mem_of_getElem? hphase⟩

theorem Accounted.run (hrun : Relation.ReflTransGen (AppStep cfg) newApp a) :
  a.Accounted
  := by
  induction hrun with
  | refl => exact accounted_newApp
  | tail _ hstep ih => exact ih.step hstep

/-- A stop sequence has ended. -/
def Stopped (a : App) : Prop := .ended ∈ a.sequences

/-- No call of the registrar is queued, and no success is unobserved. -/
structure Quiet (a : App) : Prop where
  deregistering : .deregistering ∉ a.sequences
  compensation : a.compensation ≠ .queued
  unobserved : a.unobserved = false

end App

end Core
