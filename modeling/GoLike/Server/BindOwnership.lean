import GoLike.Server.Bind
import Mathlib.Data.Fin.Tuple.Basic
import Mathlib.Data.List.Count

/-!
# A server owns its bind

In the runs that fit, the transport is asked to listen once, an accepted listener is closed once
and after every stop, the listener is served once and not after a stop, and a sealed dispatcher
stays.

The invariant counts: a call that asks the transport becomes a bind, and a start that waits for the
listener becomes a serve.
-/

namespace Server.Bind

variable {o : ServerOptions} {w w' : World} {s : State}

/-! ### Phases -/

def Purpose.dispatch? : Purpose → Option ℕ
  | .endpoint => none
  | .start dispatch => some dispatch

/-- The dispatcher that a call goes on to serve. -/
def Phase.dispatch? : Phase → Option ℕ
  | .inspects purpose | .listens purpose | .awaitsBind purpose _ | .awaitsListener purpose _ =>
      purpose.dispatch?
  | _ => none

/-- A call that may still serve. -/
def Phase.isStart (phase : Phase) : Bool := phase.dispatch?.isSome

/-- Counting after an element was replaced. -/
theorem countP_set_add {α : Type} (p : α → Bool) {l : List α} {i : ℕ} {a : α} (h : l[i]? = some a)
    (b : α) :
  (l.set i b).countP p + (p a).toNat = l.countP p + (p b).toNat
  := by
  obtain ⟨hi, rfl⟩ := List.getElem?_eq_some_iff.1 h
  have hpos : p l[i] = true → 0 < l.countP p :=
    fun hp => List.countP_pos_iff.2 ⟨l[i], List.getElem_mem hi, hp⟩
  rw [List.countP_set hi]
  cases hp : p l[i]
  · cases p b <;> simp
  · have := hpos hp
    cases p b <;> simp <;> omega

/-! ### Parts -/

/-- What a part of a call may do to the server: it keeps the promises and the dispatcher, and takes
at most the start that it is given. -/
structure Sound (s : State) (budget : ℕ) (part : Part) : Prop where
  binding : part.1.binding = s.binding
  sealedDispatcher : part.1.sealedDispatcher = s.sealedDispatcher
  closing : part.1.closing = s.closing
  stopping : part.1.stopping = s.stopping
  quiet : part.2.1.isListens = false
  starts : part.2.1.isStart.toNat + part.2.2.countP Deed.isServe + s.started.toNat ≤
    budget + part.1.started.toNat
  dispatch : ∀ dispatch, part.2.1.dispatch? = some dispatch → s.sealedDispatcher = some dispatch
  deeds : ∀ deed ∈ part.2.2, s.stopping = false ∧
    ∃ accepted dispatch, deed = .serve accepted dispatch ∧ s.sealedDispatcher = some dispatch

/-- A part that only returns. -/
theorem Sound.returned (reply : Reply) (budget : ℕ) :
  Sound s budget (s, .returned reply, [])
  where
  binding := rfl
  sealedDispatcher := rfl
  closing := rfl
  stopping := rfl
  quiet := rfl
  starts := by simp [Phase.isStart, Phase.dispatch?]
  dispatch := by simp [Phase.dispatch?]
  deeds := by simp

theorem sound_bindFailed (purpose : Purpose) (error : Failure) (budget : ℕ) :
  Sound s budget (s.bindFailed purpose error)
  := by
  cases purpose with
  | endpoint => apply Sound.returned
  | start dispatch =>
      unfold State.bindFailed
      dsimp only
      split
      · apply Sound.returned
      · apply Sound.returned

/-- A call that got the listener serves it, unless the server is stopping. -/
theorem sound_bindEnded (purpose : Purpose) (accepted : ℕ)
    (h : ∀ dispatch, purpose.dispatch? = some dispatch → s.sealedDispatcher = some dispatch) :
  Sound s purpose.dispatch?.isSome.toNat (s.bindEnded o purpose accepted)
  := by
  cases purpose with
  | endpoint => apply Sound.returned
  | start dispatch =>
      unfold State.bindEnded
      dsimp only
      split
      · split
        · exact ⟨rfl, rfl, rfl, rfl, rfl, by simp [Phase.isStart, Phase.dispatch?],
            by simp [Phase.dispatch?], by simp⟩
        · exact ⟨rfl, rfl, rfl, rfl, rfl, by simp [Phase.isStart, Phase.dispatch?],
            by simp [Phase.dispatch?], by simp⟩
      · rename_i hstopping
        exact ⟨rfl, rfl, rfl, rfl, rfl,
          by simp [Phase.isStart, Phase.dispatch?, Deed.isServe, Purpose.dispatch?],
          by simp [Phase.dispatch?],
          by simpa [hstopping] using h dispatch rfl⟩

@[simp] theorem isListens_bind (purpose : Purpose) : (s.bind purpose).isListens = false := by
  unfold State.bind
  split
  · rfl
  · split
    · rfl
    · rfl

@[simp] theorem dispatch?_bind (purpose : Purpose) :
  (s.bind purpose).dispatch? = purpose.dispatch?
  := by
  unfold State.bind
  split
  · rfl
  · split
    · rfl
    · rfl

/-- A start is taken at most once. -/
theorem sound_enter {dispatch : ℕ} (h : s.sealedDispatcher = some dispatch) (entry : Entry) :
  Sound s 0 (s.enter dispatch entry)
  := by
  cases entry with
  | endpoint =>
      exact ⟨rfl, rfl, rfl, rfl, by simp [State.enter],
        by simp [State.enter, Phase.isStart, Purpose.dispatch?],
        by simp [State.enter, Purpose.dispatch?], by simp [State.enter]⟩
  | start =>
      unfold State.enter
      dsimp only
      split
      · apply Sound.returned
      · rename_i hstarted
        exact ⟨rfl, rfl, rfl, rfl, by simp,
          by simp [hstarted, Phase.isStart, Purpose.dispatch?],
          by simpa [Purpose.dispatch?] using h, by simp⟩

/-- Two servers that differ in their registrations, the failure of `seal`, the address or the
listener only. -/
structure Alike (s s' : State) : Prop where
  binding : s'.binding = s.binding
  sealedDispatcher : s'.sealedDispatcher = s.sealedDispatcher
  closing : s'.closing = s.closing
  stopping : s'.stopping = s.stopping
  started : s'.started = s.started

variable {s' : State} {part : Part}

theorem Sound.of_alike {budget : ℕ} (h : Sound s' budget part) (halike : Alike s s') :
  Sound s budget part
  where
  binding := h.binding.trans halike.binding
  sealedDispatcher := h.sealedDispatcher.trans halike.sealedDispatcher
  closing := h.closing.trans halike.closing
  stopping := h.stopping.trans halike.stopping
  quiet := h.quiet
  starts := halike.started ▸ h.starts
  dispatch := halike.sealedDispatcher ▸ h.dispatch
  deeds := halike.sealedDispatcher ▸ halike.stopping ▸ h.deeds

/-- `seal` returns the sealed dispatcher, or it does not touch the bind. -/
theorem seal_cases (o : ServerOptions) (s : State) :
  (∃ dispatch, s.sealedDispatcher = some dispatch ∧ s.seal o = (s, .sealed dispatch)) ∨
    ∃ s', Alike s s' ∧ ((∃ error, s.seal o = (s', .failed error)) ∨ s.seal o = (s', .composes))
  := by
  unfold State.seal
  cases hsealed : s.sealedDispatcher with
  | some dispatch => exact .inl ⟨dispatch, rfl, rfl⟩
  | none =>
      right
      cases s.sealFailure with
      | some error => exact ⟨s, ⟨rfl, rfl, rfl, rfl, rfl⟩, .inl ⟨error, rfl⟩⟩
      | none =>
          dsimp only
          split
          · refine ⟨_, ?_, .inl ⟨_, rfl⟩⟩
            exact ⟨rfl, hsealed.symm, rfl, rfl, rfl⟩
          · split
            · refine ⟨_, ?_, .inl ⟨_, rfl⟩⟩
              exact ⟨rfl, hsealed.symm, rfl, rfl, rfl⟩
            · refine ⟨_, ?_, .inr rfl⟩
              exact ⟨rfl, hsealed.symm, rfl, rfl, rfl⟩

theorem sound_call (entry : Entry) : Sound s 0 (s.call o entry) := by
  unfold State.call
  obtain ⟨dispatch, hsealed, hseal⟩ | ⟨s', halike, ⟨error, hseal⟩ | hseal⟩ := seal_cases o s
  · rw [hseal]
    exact sound_enter hsealed entry
  · rw [hseal]
    exact (Sound.returned _ _).of_alike halike
  · rw [hseal]
    apply Sound.of_alike _ halike
    exact ⟨rfl, rfl, rfl, rfl, rfl, by simp [Phase.isStart, Phase.dispatch?],
      by simp [Phase.dispatch?], by simp⟩

/-! ### The invariant -/

/-- What was closed, at each stage of the close. -/
def ClosesWell (w : World) : Option Closing → Prop
  | none => ∀ accepted, .close accepted ∉ w.deeds
  | some (.awaits bind) => bind < w.binds.length ∧ ∀ accepted, .close accepted ∉ w.deeds
  | some (.closes _) | some (.settled _) =>
      ((∃ accepted, w.binds = [.bound accepted] ∧ .close accepted ∈ w.deeds) ∨
        ∃ error, w.binds = [.failed error]) ∧
      ∀ accepted, w.deeds.count (.close accepted) ≤ 1

variable {closing : Option Closing}

/-- What was closed is read off the binds and the closes. -/
theorem ClosesWell.of_deeds (h : ClosesWell w closing) (hbinds : w'.binds = w.binds)
    (hcount : ∀ accepted, w'.deeds.count (.close accepted) = w.deeds.count (.close accepted)) :
  ClosesWell w' closing
  := by
  have hmem : ∀ accepted, .close accepted ∈ w'.deeds ↔ .close accepted ∈ w.deeds := by
    intro accepted
    rw [← List.count_pos_iff, ← List.count_pos_iff, hcount]
  revert h
  cases closing with
  | none => simp [ClosesWell, hmem]
  | some closing => cases closing <;> simp [ClosesWell, hmem, hcount, hbinds]

/-- The invariant of the runs that fit. -/
structure Inv (w : World) : Prop where
  /-- A call that asks the transport becomes a bind. -/
  asked : w.deeds.count .listen = w.calls.countP Phase.isListens + w.binds.length
  askedOnce : w.calls.countP Phase.isListens + w.binds.length ≤ 1
  binding : w.server.binding = none → w.binds = []
  bound : ∀ pending, w.server.binding = some pending → pending < w.binds.length
  accepted : ∀ accepted, .accept accepted ∈ w.deeds →
    .captures accepted ∈ w.binds ∨ .bound accepted ∈ w.binds
  stopped : .stop ∈ w.deeds → w.server.stopping = true
  stopping : w.server.stopping = true ↔ w.server.closing ≠ none
  closing : ClosesWell w w.server.closing
  /-- A start that waits for the listener becomes a serve. -/
  starts : w.calls.countP Phase.isStart + w.deeds.countP Deed.isServe ≤ w.server.started.toNat
  dispatch : ∀ phase ∈ w.calls, ∀ dispatch, phase.dispatch? = some dispatch →
    w.server.sealedDispatcher = some dispatch
  served : ∀ accepted dispatch, .serve accepted dispatch ∈ w.deeds →
    w.server.sealedDispatcher = some dispatch
  ordered : w.deeds.Pairwise fun later earlier => earlier = .stop → ¬ later.isServe

theorem inv_newWorld (o : ServerOptions) : Inv (newWorld o) := by
  constructor <;> simp [newWorld, ClosesWell]

/-! ### Parts keep the invariant -/

/-- The invariant after deeds that only serve, from calls that are counted alike. -/
theorem Inv.serves {calls : List Phase} {budget : ℕ} (h : Inv w)
    (hsound : Sound w.server budget part)
    (hlistens : calls.countP Phase.isListens = w.calls.countP Phase.isListens)
    (hstarts : calls.countP Phase.isStart + budget = w.calls.countP Phase.isStart + part.2.1.isStart.toNat)
    (hcalls : ∀ phase ∈ calls, phase ∈ w.calls ∨ phase = part.2.1) :
  Inv { w with server := part.1, calls := calls, deeds := part.2.2 ++ w.deeds }
  := by
  have hnew : ∀ deed : Deed, deed.isServe = false → deed ∉ part.2.2 := by
    intro deed hdeed hmem
    obtain ⟨-, _, _, rfl, -⟩ := hsound.deeds deed hmem
    simp [Deed.isServe] at hdeed
  have hcount : ∀ deed : Deed, deed.isServe = false →
      (part.2.2 ++ w.deeds).count deed = w.deeds.count deed := by
    intro deed hdeed
    rw [List.count_append, List.count_eq_zero.2 (hnew deed hdeed), Nat.zero_add]
  have hmem : ∀ deed : Deed, deed.isServe = false →
      (deed ∈ part.2.2 ++ w.deeds ↔ deed ∈ w.deeds) := by
    intro deed hdeed
    rw [List.mem_append]
    exact or_iff_right (hnew deed hdeed)
  constructor
  · rw [hcount _ rfl, hlistens]
    exact h.asked
  · rw [hlistens]
    exact h.askedOnce
  · rw [hsound.binding]
    exact h.binding
  · rw [hsound.binding]
    exact h.bound
  · intro accepted haccept
    exact h.accepted accepted ((hmem _ rfl).1 haccept)
  · intro hstop
    rw [hsound.stopping]
    exact h.stopped ((hmem _ rfl).1 hstop)
  · rw [hsound.stopping, hsound.closing]
    exact h.stopping
  · dsimp only
    rw [hsound.closing]
    apply ClosesWell.of_deeds h.closing
    · rfl
    · intro accepted
      exact hcount _ rfl
  · have h₁ := h.starts
    have h₂ := hsound.starts
    rw [List.countP_append]
    dsimp only
    omega
  · intro phase hphase dispatch hdispatch
    rw [hsound.sealedDispatcher]
    obtain hphase | rfl := hcalls phase hphase
    · exact h.dispatch phase hphase dispatch hdispatch
    · exact hsound.dispatch dispatch hdispatch
  · intro accepted dispatch hserve
    rw [hsound.sealedDispatcher]
    obtain hserve | hserve := List.mem_append.1 hserve
    · obtain ⟨-, _, _, heq, hdispatch⟩ := hsound.deeds _ hserve
      simp only [Deed.serve.injEq] at heq
      rw [heq.2]
      exact hdispatch
    · exact h.served accepted dispatch hserve
  · apply List.pairwise_append.2
    refine ⟨?_, h.ordered, ?_⟩
    · apply List.pairwise_of_forall_mem_list
      intro later _ earlier hearlier hstop
      exact absurd hearlier (hnew earlier (by rw [hstop]; rfl))
    · intro later hlater earlier hearlier hstop
      obtain ⟨hstopping, -⟩ := hsound.deeds later hlater
      rw [hstop] at hearlier
      rw [h.stopped hearlier] at hstopping
      simp at hstopping

variable {call : ℕ}

theorem Inv.goes {phase : Phase} (h : Inv w) (hcall : w.calls[call]? = some phase)
    (hphase : phase.isListens = false) (hsound : Sound w.server phase.isStart.toNat part) :
  Inv (w.goes call part)
  := by
  apply h.serves hsound
  · have := countP_set_add Phase.isListens hcall part.2.1
    simpa [hphase, hsound.quiet] using this
  · exact countP_set_add Phase.isStart hcall part.2.1
  · intro other hother
    exact (List.mem_or_eq_of_mem_set hother)

theorem Inv.opens (h : Inv w) (hsound : Sound w.server 0 part) :
  Inv (w.opens part)
  := by
  apply h.serves hsound
  · simp [List.countP_append, hsound.quiet]
  · simp [List.countP_append, List.countP_cons, Bool.toNat, Bool.cond_eq_ite]
  · intro phase hphase
    simpa using hphase

/-! ### Events keep the invariant -/

theorem Inv.alike (h : Inv w) (halike : Alike w.server s') :
  Inv { w with server := s' }
  where
  asked := h.asked
  askedOnce := h.askedOnce
  binding := halike.binding ▸ h.binding
  bound := halike.binding ▸ h.bound
  accepted := h.accepted
  stopped := halike.stopping ▸ h.stopped
  stopping := halike.stopping ▸ halike.closing ▸ h.stopping
  closing := halike.closing ▸ h.closing
  starts := halike.started ▸ h.starts
  dispatch := halike.sealedDispatcher ▸ h.dispatch
  served := halike.sealedDispatcher ▸ h.served
  ordered := h.ordered

/-- A stop that finds a close, or has attached one. -/
theorem Inv.stops (h : Inv w) (hsome : closing ≠ none) (hclosing : ClosesWell w closing) :
  Inv (w.opens ({ w.server with stopping := true, closing := closing }, .awaitsClosing, [.stop]))
  := by
  constructor
  · simpa [World.opens, List.countP_append, Phase.isListens] using h.asked
  · simpa [World.opens, List.countP_append, Phase.isListens] using h.askedOnce
  · exact h.binding
  · exact h.bound
  · simpa [World.opens] using h.accepted
  · simp [World.opens]
  · simpa [World.opens] using hsome
  · apply ClosesWell.of_deeds hclosing
    · rfl
    · simp [World.opens]
  · simpa [World.opens, List.countP_append, Phase.isStart, Phase.dispatch?, Deed.isServe]
      using h.starts
  · intro phase hphase dispatch hdispatch
    obtain hphase | hphase := List.mem_append.1 hphase
    · exact h.dispatch phase hphase dispatch hdispatch
    · rw [List.mem_singleton.1 hphase] at hdispatch
      simp [Phase.dispatch?] at hdispatch
  · simpa [World.opens] using h.served
  · simpa [World.opens, Deed.isServe] using h.ordered

/-- A stop after the bind began attaches a close, unless there is one. -/
theorem Inv.stop (h : Inv w) : Inv (w.opens w.server.stop) := by
  unfold State.stop
  split
  · exact h.opens (Sound.returned _ _)
  · rename_i pending hbinding
    have hclosing := h.closing
    split
    · rename_i hsome
      have hstopping := h.stopping.2 (Option.isSome_iff_ne_none.1 hsome)
      have hserver : { w.server with stopping := true, closing := w.server.closing } = w.server := by
        rw [← hstopping]
      have := h.stops (Option.isSome_iff_ne_none.1 hsome) hclosing
      rwa [hserver] at this
    · rename_i hnone
      rw [Option.not_isSome_iff_eq_none.1 hnone] at hclosing
      exact h.stops (by simp) ⟨h.bound pending hbinding, hclosing⟩

/-- A dispatcher is sealed when there is none. -/
theorem Inv.seals (h : Inv w) (hsealed : w.server.sealedDispatcher = none) (dispatch dispatchers : ℕ) :
  Inv { w with
    server := { w.server with sealedDispatcher := some dispatch }
    dispatchers := dispatchers }
  where
  asked := h.asked
  askedOnce := h.askedOnce
  binding := h.binding
  bound := h.bound
  accepted := h.accepted
  stopped := h.stopped
  stopping := h.stopping
  closing := h.closing.of_deeds rfl (fun _ => rfl)
  starts := h.starts
  dispatch := by
    intro phase hphase dispatch hdispatch
    have := h.dispatch phase hphase dispatch hdispatch
    simp [hsealed] at this
  served := by
    intro accepted dispatch hserve
    have := h.served accepted dispatch hserve
    simp [hsealed] at this
  ordered := h.ordered

/-- The transport is asked when there is no bind and no call that asks. -/
theorem Inv.listens {purpose : Purpose} (h : Inv w)
    (hcall : w.calls[call]? = some (.inspects purpose)) (hbinding : w.server.binding = none)
    (hnone : w.calls.countP Phase.isListens = 0) :
  Inv (w.goes call (w.server, .listens purpose, [.listen]))
  := by
  have hbinds := h.binding hbinding
  have hasks := countP_set_add Phase.isListens hcall (.listens purpose)
  have hstarts := countP_set_add Phase.isStart hcall (.listens purpose)
  have h₁ := h.asked
  have h₂ := h.starts
  simp only [Phase.isListens, Bool.toNat_false, Bool.toNat_true, Nat.add_zero] at hasks
  simp only [Phase.isStart, Phase.dispatch?, Nat.add_right_cancel_iff] at hstarts
  rw [hbinds, hnone] at h₁
  constructor
  · simpa [World.goes, hbinds, hasks, hnone] using h₁
  · simp [World.goes, hbinds, hasks, hnone]
  · exact h.binding
  · exact h.bound
  · simpa [World.goes] using h.accepted
  · simpa [World.goes] using h.stopped
  · exact h.stopping
  · apply ClosesWell.of_deeds h.closing
    · rfl
    · simp [World.goes]
  · simpa [World.goes, hstarts, Deed.isServe] using h₂
  · intro phase hphase dispatch hdispatch
    obtain hphase | rfl := List.mem_or_eq_of_mem_set hphase
    · exact h.dispatch phase hphase dispatch hdispatch
    · exact h.dispatch _ (List.mem_of_getElem? hcall) dispatch hdispatch
  · simpa [World.goes] using h.served
  · simpa [World.goes, Deed.isServe] using h.ordered

/-- A call that asked the transport has a bind. -/
theorem Inv.listened {purpose : Purpose} (h : Inv w)
    (hcall : w.calls[call]? = some (.listens purpose)) :
  Inv { w.goes call
      ({ w.server with binding := some w.binds.length }, .awaitsBind purpose w.binds.length, [])
    with binds := w.binds ++ [.requested] }
  := by
  have hasks := countP_set_add Phase.isListens hcall (.awaitsBind purpose w.binds.length)
  have hstarts := countP_set_add Phase.isStart hcall (.awaitsBind purpose w.binds.length)
  have h₁ := h.asked
  have h₂ := h.askedOnce
  have h₃ := h.starts
  simp only [Phase.isListens, Bool.toNat_false, Bool.toNat_true, Nat.add_zero] at hasks
  simp only [Phase.isStart, Phase.dispatch?, Nat.add_right_cancel_iff] at hstarts
  have hbinds : w.binds = [] := List.eq_nil_of_length_eq_zero (by omega)
  have hclosing := h.closing
  constructor
  · simp only [World.goes, List.nil_append, List.length_append, List.length_singleton]
    omega
  · simp only [World.goes, List.length_append, List.length_singleton]
    omega
  · simp [World.goes]
  · simp [World.goes]
  · simpa [World.goes, hbinds] using h.accepted
  · exact h.stopped
  · exact h.stopping
  · revert hclosing
    dsimp only [World.goes]
    cases w.server.closing with
    | none => simp [ClosesWell]
    | some closing => cases closing <;> simp [ClosesWell, hbinds]
  · simpa [World.goes, hstarts] using h₃
  · intro phase hphase dispatch hdispatch
    obtain hphase | rfl := List.mem_or_eq_of_mem_set hphase
    · exact h.dispatch phase hphase dispatch hdispatch
    · exact h.dispatch _ (List.mem_of_getElem? hcall) dispatch hdispatch
  · exact h.served
  · exact h.ordered

variable {promise : BindPromise}

/-- There is one bind at most. -/
theorem Inv.binds_eq (h : Inv w) {pending : ℕ} (hpending : w.binds[pending]? = some promise) :
  w.binds = [promise] ∧ pending = 0
  := by
  have := h.askedOnce
  obtain ⟨hlt, rfl⟩ := List.getElem?_eq_some_iff.1 hpending
  have hlength : w.binds.length = 1 := by omega
  obtain ⟨promise, hbinds⟩ := List.length_eq_one_iff.1 hlength
  simp [hbinds] at hlt ⊢
  omega

/-- A bind that is not settled yet. -/
def BindPromise.isOpen : BindPromise → Bool
  | .requested | .captures _ => true
  | _ => false

/-- Nothing is closed before the bind is settled. -/
theorem ClosesWell.of_open (h : ClosesWell w closing) (hbinds : w.binds = [promise])
    (hopen : promise.isOpen) (hlength : w'.binds.length = 1)
    (hcloses : ∀ accepted, .close accepted ∈ w'.deeds → .close accepted ∈ w.deeds) :
  ClosesWell w' closing
  := by
  cases closing with
  | none =>
      intro accepted hclose
      exact h accepted (hcloses accepted hclose)
  | some closing =>
      cases closing with
      | awaits bind =>
          obtain ⟨hbind, hnone⟩ := h
          refine ⟨by rwa [hlength, ← show w.binds.length = 1 by rw [hbinds]; rfl], ?_⟩
          intro accepted hclose
          exact hnone accepted (hcloses accepted hclose)
      | closes _ | settled _ =>
          obtain ⟨⟨_, hbound, -⟩ | ⟨_, hfailed⟩, -⟩ := h
          · rw [List.singleton_inj.1 (hbinds.symm.trans hbound)] at hopen
            simp [BindPromise.isOpen] at hopen
          · rw [List.singleton_inj.1 (hbinds.symm.trans hfailed)] at hopen
            simp [BindPromise.isOpen] at hopen

/-- The bind goes on: it accepts a listener, names it, or fails. -/
theorem Inv.moves {deeds : List Deed} (h : Inv w) (promise' : BindPromise) (s' : State)
    (hbinds : w.binds = [promise]) (hopen : promise.isOpen) (halike : Alike w.server s')
    (hdeeds : deeds = [] ∨ ∃ accepted, deeds = [.accept accepted] ∧ promise' = .captures accepted)
    (hkeeps : ∀ accepted, promise = .captures accepted → promise' = .bound accepted) :
  Inv { w with server := s', binds := [promise'], deeds := deeds ++ w.deeds }
  := by
  have haccepted : ∀ accepted, .accept accepted ∈ w.deeds → promise' = .bound accepted := by
    intro accepted haccept
    have := h.accepted accepted haccept
    rw [hbinds, List.mem_singleton, List.mem_singleton] at this
    obtain hcaptures | hbound := this
    · exact hkeeps accepted hcaptures.symm
    · rw [← hbound] at hopen
      simp [BindPromise.isOpen] at hopen
  have h₁ := h.asked
  have h₂ := h.askedOnce
  have h₃ := h.bound
  rw [hbinds] at h₁ h₂ h₃
  apply Inv.alike (w := { w with binds := [promise'], deeds := deeds ++ w.deeds }) _ halike
  have hclosing : ClosesWell { w with binds := [promise'], deeds := deeds ++ w.deeds }
      w.server.closing := by
    apply h.closing.of_open hbinds hopen rfl
    intro accepted hclose
    obtain rfl | ⟨_, rfl, -⟩ := hdeeds
    · exact hclose
    · simpa using hclose
  have hbinding : w.server.binding = none → [promise'] = [] := by
    intro hnone
    have := h.binding hnone
    simp [hbinds] at this
  obtain rfl | ⟨accepted, rfl, rfl⟩ := hdeeds
  · refine ⟨h₁, h₂, hbinding, h₃, ?_, h.stopped, h.stopping, hclosing, h.starts, h.dispatch,
      h.served, h.ordered⟩
    intro accepted haccept
    simp [haccepted accepted haccept]
  · refine ⟨by simpa using h₁, h₂, hbinding, h₃, ?_, by simpa using h.stopped, h.stopping, hclosing,
      by simpa [Deed.isServe] using h.starts, h.dispatch, by simpa using h.served,
      by simpa [Deed.isServe] using h.ordered⟩
    intro accepted' haccept
    obtain heq | haccept := List.mem_cons.1 haccept
    · simpa using heq
    · exact absurd (haccepted accepted' haccept) (by simp)

/-- The reaction of a stop closes the listener of the bind. -/
theorem Inv.react (h : Inv w) (hreact : w.react = some w') : Inv w' := by
  unfold World.react at hreact
  split at hreact
  · rename_i pending hawaits
    have hclosing := h.closing
    rw [hawaits] at hclosing
    obtain ⟨-, hnone⟩ := hclosing
    have hstopping := h.stopping.2 (by simp [hawaits])
    split at hreact
    · rename_i accepted hpending
      obtain ⟨hbinds, -⟩ := h.binds_eq hpending
      simp only [Option.some.injEq] at hreact
      subst hreact
      refine ⟨by simpa using h.asked, h.askedOnce, h.binding, h.bound, by simpa using h.accepted,
        by simpa using h.stopped, by simpa using hstopping, ?_, by simpa [Deed.isServe] using h.starts,
        h.dispatch, by simpa using h.served, by simpa [Deed.isServe] using h.ordered⟩
      refine ⟨.inl ⟨accepted, hbinds, by simp⟩, ?_⟩
      intro accepted'
      rw [List.count_cons, List.count_eq_zero.2 (hnone accepted')]
      split <;> simp
    · rename_i error hpending
      obtain ⟨hbinds, -⟩ := h.binds_eq hpending
      simp only [Option.some.injEq] at hreact
      subst hreact
      refine ⟨h.asked, h.askedOnce, h.binding, h.bound, h.accepted, h.stopped,
        by simpa using hstopping, ?_, h.starts, h.dispatch, h.served, h.ordered⟩
      refine ⟨.inr ⟨error, hbinds⟩, ?_⟩
      intro accepted
      simp [List.count_eq_zero.2 (hnone accepted)]
    · simp at hreact
  · simp at hreact

/-- A call goes on with the promise it waited for. -/
theorem Inv.resume (h : Inv w) (hresume : w.resume o call = some w') : Inv w' := by
  have hdispatch : ∀ phase, w.calls[call]? = some phase → ∀ dispatch,
      phase.dispatch? = some dispatch → w.server.sealedDispatcher = some dispatch := by
    intro phase hphase dispatch
    exact h.dispatch phase (List.mem_of_getElem? hphase) dispatch
  unfold World.resume at hresume
  split at hresume
  · rename_i purpose pending hcall
    split at hresume
    · cases hresume
      exact h.goes hcall rfl (sound_bindEnded purpose _ (hdispatch _ hcall))
    · cases hresume
      exact h.goes hcall rfl (sound_bindFailed purpose _ _)
    · simp at hresume
  · rename_i purpose accepted hcall
    cases hresume
    exact h.goes hcall rfl (sound_bindEnded purpose _ (hdispatch _ hcall))
  · rename_i hcall
    split at hresume
    · cases hresume
      exact h.goes hcall rfl (Sound.returned _ _)
    · simp at hresume
  · rename_i hcall
    split at hresume
    · cases hresume
      apply h.goes hcall rfl
      exact (Sound.returned _ _).of_alike ⟨rfl, rfl, rfl, rfl, rfl⟩
    · simp at hresume
  · simp at hresume

variable {error : Failure}

theorem Inv.abandon (h : Inv w) (habandon : w.abandon call error = some w') :
  Inv w'
  := by
  unfold World.abandon at habandon
  split at habandon
  · rename_i purpose _ hcall
    cases habandon
    exact h.goes hcall rfl (sound_bindFailed purpose _ _)
  · rename_i purpose _ hcall
    cases habandon
    exact h.goes hcall rfl (sound_bindFailed purpose _ _)
  · rename_i hcall
    cases habandon
    exact h.goes hcall rfl (Sound.returned _ _)
  · simp at habandon

/-- An event that fits keeps the invariant. -/
theorem Inv.step {event : Event} (h : Inv w) (hfits : w.fits event)
    (hstep : w.step o event = some w') :
  Inv w'
  := by
  cases event with
  | registers prepared =>
      simp only [World.step] at hstep
      split at hstep
      · rename_i s' hregister
        cases hstep
        apply h.alike
        unfold State.registerHandlers at hregister
        split at hregister
        · simp at hregister
        · split at hregister
          · simp at hregister
          · cases hregister
            exact ⟨rfl, rfl, rfl, rfl, rfl⟩
      · cases hstep
        exact h
  | calls entry =>
      cases hstep
      exact h.opens (sound_call entry)
  | stops =>
      cases hstep
      exact h.stop
  | composed call =>
      simp only [World.step] at hstep
      split at hstep
      · rename_i entry hcall
        cases hstep
        have hsealed : w.server.sealedDispatcher = none := by simpa [World.fits] using hfits
        exact (h.seals hsealed w.dispatchers (w.dispatchers + 1)).goes hcall rfl (sound_enter rfl entry)
      · simp at hstep
  | composeThrew | served =>
      simp only [World.step] at hstep
      split at hstep
      · rename_i hcall
        cases hstep
        apply h.goes hcall rfl
        exact (Sound.returned _ _).of_alike ⟨rfl, rfl, rfl, rfl, rfl⟩
      · simp at hstep
  | inspected call error =>
      simp only [World.step] at hstep
      split at hstep
      · rename_i purpose error hcall
        cases hstep
        exact h.goes hcall rfl (sound_bindFailed purpose error _)
      · rename_i purpose hcall
        cases hstep
        simp only [World.fits, Bool.and_eq_true, Option.isNone_iff_eq_none, List.all_eq_true,
          Bool.not_eq_true'] at hfits
        apply h.listens hcall hfits.1
        apply List.countP_eq_zero.2
        intro phase hphase
        simp [hfits.2 phase hphase]
      · simp at hstep
  | listened call =>
      simp only [World.step] at hstep
      split at hstep
      · rename_i purpose hcall
        cases hstep
        exact h.listened hcall
      · simp at hstep
  | listenThrew | nameThrew => simp [World.fits] at hfits
  | accepted bind listener =>
      simp only [World.step] at hstep
      split at hstep
      · rename_i hbind
        cases hstep
        obtain ⟨hbinds, rfl⟩ := h.binds_eq hbind
        have := h.moves (.captures listener) { w.server with listener := some listener } hbinds rfl
          ⟨rfl, rfl, rfl, rfl, rfl⟩ (.inr ⟨listener, rfl, rfl⟩) (by simp)
        simpa [hbinds] using this
      · simp at hstep
  | refused bind error =>
      simp only [World.step] at hstep
      split at hstep
      · rename_i hbind
        cases hstep
        obtain ⟨hbinds, rfl⟩ := h.binds_eq hbind
        have := h.moves (.failed error) w.server hbinds rfl ⟨rfl, rfl, rfl, rfl, rfl⟩ (.inl rfl)
          (by simp)
        simpa [hbinds] using this
      · simp at hstep
  | named bind address =>
      simp only [World.step] at hstep
      split at hstep
      · rename_i listener hbind
        cases hstep
        obtain ⟨hbinds, rfl⟩ := h.binds_eq hbind
        have := h.moves (.bound listener) { w.server with actualAddress := address } hbinds rfl
          ⟨rfl, rfl, rfl, rfl, rfl⟩ (.inl rfl) (by simp)
        simpa [hbinds] using this
      · simp at hstep
  | resumed call => exact h.resume hstep
  | abandoned call error => exact h.abandon hstep
  | reacts => exact h.react hstep
  | closed result =>
      simp only [World.step] at hstep
      split at hstep
      · rename_i accepted hcloses
        cases hstep
        have hclosing := h.closing
        have hstopping := h.stopping.2 (by simp [hcloses])
        rw [hcloses] at hclosing
        exact ⟨h.asked, h.askedOnce, h.binding, h.bound, h.accepted, h.stopped, by simpa using hstopping,
          hclosing, h.starts, h.dispatch, h.served, h.ordered⟩
      · simp at hstep

theorem Inv.run {events : List Event} (h : Inv w) (hrun : w.run o World.fits events = some w') :
  Inv w'
  := by
  induction events generalizing w with
  | nil =>
      cases hrun
      exact h
  | cons event events ih =>
      simp only [World.run] at hrun
      split at hrun
      · rename_i hfits
        obtain ⟨w₁, hstep, hrun⟩ := Option.bind_eq_some_iff.1 hrun
        exact ih (h.step hfits hstep) hrun
      · simp at hrun

/-! ### A sealed dispatcher stays -/

variable {accepted : ℕ}

/-- The reaction of a stop is left to run when the listener is there. -/
theorem inevitable_of_bound (hbinds : w.binds = [.bound accepted])
    (hclosing : w.server.closing = some (.awaits 0)) :
  Inevitable (World.Job o World.fits) (fun w => .close accepted ∈ w.deeds) w
  := by
  have hreact : w.react = some { w with
      server := { w.server with closing := some (.closes accepted) }
      deeds := .close accepted :: w.deeds } := by
    simp [World.react, hclosing, hbinds]
  apply Inevitable.later ⟨_, .reacts, rfl, rfl, hreact⟩
  rintro w' ⟨event, hjob, hfits, hstep⟩
  apply Inevitable.now
  cases event with
  | reacts =>
      rw [World.step, hreact] at hstep
      cases hstep
      exact List.mem_cons_self
  | named bind address =>
      simp only [World.step, hbinds] at hstep
      split at hstep
      · rename_i hbind
        simpa using List.mem_of_getElem? hbind
      · simp at hstep
  | nameThrew bind error => simp [World.fits] at hfits
  | _ => simp [Event.isJob] at hjob

/-- The address of the listener is left to be named before. -/
theorem inevitable_of_captures (hbinds : w.binds = [.captures accepted])
    (hclosing : w.server.closing = some (.awaits 0)) :
  Inevitable (World.Job o World.fits) (fun w => .close accepted ∈ w.deeds) w
  := by
  have hnamed : ∀ address, w.step o (.named 0 address) = some { w with
      server := { w.server with actualAddress := address }
      binds := [.bound accepted] } := by
    intro address
    simp [World.step, hbinds]
  apply Inevitable.later ⟨_, .named 0 w.server.actualAddress, rfl, rfl, hnamed _⟩
  rintro w' ⟨event, hjob, hfits, hstep⟩
  cases event with
  | reacts => simp [World.step, World.react, hclosing, hbinds] at hstep
  | named bind address =>
      have hbind : bind = 0 := by
        simp only [World.step, hbinds] at hstep
        split at hstep
        · rename_i hbind
          obtain ⟨hlt, -⟩ := List.getElem?_eq_some_iff.1 hbind
          simpa using hlt
        · simp at hstep
      rw [hbind, hnamed] at hstep
      cases hstep
      exact inevitable_of_bound rfl hclosing
  | nameThrew bind error => simp [World.fits] at hfits
  | _ => simp [Event.isJob] at hjob

theorem Inv.stopCloses (h : Inv w) (hstop : .stop ∈ w.deeds)
    (haccept : .accept accepted ∈ w.deeds) :
  Inevitable (World.Job o World.fits) (fun w => .close accepted ∈ w.deeds) w
  := by
  have hone : ∀ promise ∈ w.binds, w.binds = [promise] := by
    intro promise hpromise
    obtain ⟨_, hpending⟩ := List.mem_iff_getElem?.1 hpromise
    exact (h.binds_eq hpending).1
  have hbinds : w.binds = [.captures accepted] ∨ w.binds = [.bound accepted] :=
    (h.accepted accepted haccept).imp (hone _) (hone _)
  have hsome := h.stopping.1 (h.stopped hstop)
  have hclosing := h.closing
  have hclosed : (∃ accepted, w.binds = [.bound accepted] ∧ .close accepted ∈ w.deeds) ∨
      (∃ error, w.binds = [.failed error]) → .close accepted ∈ w.deeds := by
    rintro (⟨accepted', hbound, hclose⟩ | ⟨error, hfailed⟩)
    · obtain hcaptures | hbound' := hbinds
      · simp [hbound] at hcaptures
      · rw [hbound', List.singleton_inj, BindPromise.bound.injEq] at hbound
        rwa [hbound]
    · simp [hfailed] at hbinds
  cases hstage : w.server.closing with
  | none => exact absurd hstage hsome
  | some closing =>
      rw [hstage] at hclosing
      cases closing with
      | awaits bind =>
          have hbind : bind = 0 := by
            have h₁ := hclosing.1
            have h₂ := h.askedOnce
            omega
          rw [hbind] at hstage
          obtain hcaptures | hbound := hbinds
          · exact inevitable_of_captures hcaptures hstage
          · exact inevitable_of_bound hbound hstage
      | closes | settled => exact .now (hclosed hclosing.1)

/-! ### Ownership -/

theorem Inv.owned (h : Inv w) : w.Owned o World.fits where
  listensOnce := h.asked ▸ h.askedOnce
  closesOnce := by
    intro accepted
    have hclosing := h.closing
    cases hstage : w.server.closing with
    | none =>
        rw [hstage] at hclosing
        simp [List.count_eq_zero.2 (hclosing accepted)]
    | some closing =>
        rw [hstage] at hclosing
        cases closing with
        | awaits _ => simp [List.count_eq_zero.2 (hclosing.2 accepted)]
        | closes | settled => exact hclosing.2 accepted
  stopCloses hstop _ haccept := h.stopCloses hstop haccept
  servesOnce := by
    have := h.starts
    have := Bool.toNat_le w.server.started
    omega
  servesSealed := h.served
  noServeAfterStop := h.ordered

/-- Nothing is left to run when the bind failed and the close is settled. -/
theorem not_inevitable {allowed : World → Event → Bool} {result : Except Failure Unit}
    {P : World → Prop} (hbinds : w.binds = [.failed error])
    (hclosing : w.server.closing = some (.settled result)) (hnot : ¬ P w) :
  ¬ Inevitable (World.Job o allowed) P w
  := by
  intro hinevitable
  cases hinevitable with
  | now h => exact hnot h
  | later hstep _ =>
      obtain ⟨_, event, hjob, -, hstep⟩ := hstep
      cases event with
      | reacts => simp [World.step, World.react, hclosing] at hstep
      | named bind address | nameThrew bind error =>
          cases bind <;> simp [World.step, hbinds] at hstep
      | _ => simp [Event.isJob] at hjob

end Server.Bind
