import GoLike.Lib.Fallible
import GoLike.Registry.Selector.EwmaBooks

/-!
# Runs of selection by smoothed latency

Every step of a selector keeps its books, whatever the caller does and in whatever order, and the
observation of a selection stays as it was when the selection was issued.
-/

open Store

namespace Registry.EWMA

open P2C (SourceResult QueuedCompletion Completion retained get?_retained)

variable {urls : UrlParser} {ε : Type} {decay : Decay} {hasCallback : Bool}

namespace Ledger

variable {l l' l'' : Ledger ε} {s d : ℕ}

/-! ### Completions -/

/-- A callback begins or gives up, and its completion is not in a queue. -/
theorem Balanced.waits (h : l.Balanced) {error : Option ε} (hd : d < l.selectionCount)
    (hadmitting : (l.selections d).completion = .admitting) :
  (queueCompletion urls l d error).1.Balanced
  := by
  have hopen : (l.selections d).completion ≠ .completed := by rw [hadmitting]; decide
  have hnot : ∀ q ∈ (l.states (l.selections d).state).completionQueue, q.selection ≠ d := by
    rintro q hq rfl
    have hqueued := (h.queued _ q hq).2.2
    rw [hadmitting] at hqueued
    cases hqueued
  apply h.replace hd rfl hopen
  case hinFlight => rw [if_neg (by decide), sub_zero]
  case hring => exact fun slot => (if_neg fun hfreed => absurd hfreed.1 (by decide)).symm
  case hbounded => exact ⟨(h.bounded _).success, (h.bounded _).latency⟩
  case hqueue =>
    intro q hq
    obtain hq | hq := List.mem_append.1 hq
    · exact .inr ⟨hnot q hq, hq⟩
    · rw [List.mem_singleton.1 hq]
      exact .inl ⟨rfl, rfl⟩
  case honce =>
    rw [List.map_append]
    apply (h.queuedOnce _).append (List.nodup_singleton d)
    intro d' hd' hlast
    obtain ⟨q, hq, rfl⟩ := List.mem_map.1 hd'
    exact hnot q hq (List.mem_singleton.1 hlast)

/-- What a completion that ends makes of its endpoint state, and how far its callback has got. -/
def ended (decay : Decay) (l : Ledger ε) (s d : ℕ) (others : List (QueuedCompletion ε)) :
    Except (SelectorError ε) (ℚ × Bool) → EWMAEndpointState ε × Completion
  | .error cause =>
      let state := l.states s
      (completionEnded { state with failures := state.failures ++ [cause] } others, .opened)
  | .ok (completedAt, failed) =>
      (completionEnded (settled decay (l.states s) (l.selections d).observation completedAt failed)
        others, .completed)

theorem nextCompletion_settle (l : Ledger ε) (s d : ℕ) (others : List (QueuedCompletion ε))
    (read : Except (SelectorError ε) (ℚ × Bool)) :
  (nextCompletion urls (settleEWMASelection decay l s d read) s others).1 =
    (l.setState s (l.ended decay s d others read).1).setCompletion d
      (l.ended decay s d others read).2
  := by
  have hself : ∀ (state state' : EWMAEndpointState ε) (completion : Completion),
      ((l.setState s state).setCompletion d completion).setState s state' =
        (l.setState s state').setCompletion d completion := by
    intro state state' completion
    rw [setCompletion, setState, setState, setCompletion]
    simp [setState]
  have hstate : ∀ (state : EWMAEndpointState ε) (completion : Completion),
      ((l.setState s state).setCompletion d completion).states s = state := by
    intro state completion
    rw [setCompletion, setState]
    exact Function.update_self s state l.states
  cases read with
  | error | ok =>
      rw [nextCompletion, settleEWMASelection]
      dsimp only
      rw [hself, hstate]
      rfl

/-- A completion that has taken effect frees the slot that was given to its selection. -/
theorem Balanced.observations_settled (h : l.Balanced) (decay : Decay) (s d : ℕ)
    (completedAt : ℚ) (failed : Bool) (slot : Fin EWMAObservationSlots) :
  (settled decay (l.states s) (l.selections d).observation completedAt failed).observations slot =
    if (l.states s).observations slot = some (l.selections d).observation then none
    else (l.states s).observations slot
  := by
  rw [settled]
  dsimp only
  split
  case isTrue hgiven =>
    obtain ⟨htracked, hgiven⟩ := hgiven
    by_cases hslot : slot = (l.selections d).observation.slot
    · rw [hslot, if_pos hgiven, Function.update_self]
    · rw [Function.update_of_ne hslot, if_neg]
      intro ho
      exact hslot ((h.ring s slot _).1 ho).slot.symm
  case isFalse hnot =>
    rw [if_neg]
    intro ho
    have hgiven := (h.ring s slot _).1 ho
    rw [← hgiven.slot] at ho
    exact hnot ⟨hgiven.tracked, ho⟩

/-- The running completion of an endpoint ends. -/
theorem Balanced.settles (h : l.Balanced) {q : QueuedCompletion ε}
    {others : List (QueuedCompletion ε)} (hqueue : (l.states s).completionQueue = q :: others)
    (read : Except (SelectorError ε) (ℚ × Bool)) :
  (nextCompletion urls (settleEWMASelection decay l s q.selection read) s others).1.Balanced
  := by
  have hmem : q ∈ (l.states s).completionQueue := by
    rw [hqueue]
    exact List.mem_cons_self
  obtain ⟨hd, hstate, hqueued⟩ := h.queued s q hmem
  have hopen : (l.selections q.selection).completion ≠ .completed := by rw [hqueued]; decide
  have honce := h.queuedOnce s
  rw [hqueue, List.map_cons, List.nodup_cons] at honce
  have hothers : ∀ q' ∈ others, q'.selection ≠ q.selection ∧ q' ∈ (l.states s).completionQueue := by
    intro q' hq'
    constructor
    · intro heq
      exact honce.1 (heq ▸ List.mem_map_of_mem hq')
    · rw [hqueue]
      exact List.mem_cons_of_mem _ hq'
  rw [nextCompletion_settle]
  apply h.replace hd hstate hopen
  case hinFlight =>
    cases read with
    | error cause =>
        have hcompletion : (l.ended decay s q.selection others (.error cause)).2 = .opened := rfl
        rw [hcompletion, if_neg (by decide), sub_zero]
        rfl
    | ok value =>
        have hcompletion : (l.ended decay s q.selection others (.ok value)).2 = .completed := rfl
        rw [hcompletion, if_pos rfl]
        rfl
  case hring =>
    intro slot
    cases read with
    | error cause =>
        have hcompletion : (l.ended decay s q.selection others (.error cause)).2 = .opened := rfl
        rw [hcompletion, if_neg (fun hfreed => absurd hfreed.1 (by decide))]
        rfl
    | ok value =>
        have hcompletion : (l.ended decay s q.selection others (.ok value)).2 = .completed := rfl
        simp only [hcompletion, true_and]
        exact h.observations_settled decay s q.selection value.1 value.2 slot
  case hbounded =>
    cases read with
    | error cause => exact ⟨(h.bounded s).success, (h.bounded s).latency⟩
    | ok value =>
        have hbounded := (h.bounded s).settled decay (l.selections q.selection).observation
          value.1 value.2
        exact ⟨hbounded.success, hbounded.latency⟩
  case hqueue =>
    intro q' hq'
    apply Or.inr
    apply hothers q'
    cases read with
    | error | ok => exact hq'
  case honce =>
    cases read with
    | error | ok => exact honce.2

/-! ### Selections -/

/-- The states of a domain are states of the ledger. -/
def Maps (l : Ledger ε) (states : States) : Prop :=
  ∀ k s, states.get? k = some s → s < l.stateCount

/-- Endpoint states are created, and nothing else happens. -/
structure Grows (l l' : Ledger ε) : Prop where
  balanced : l'.Balanced
  states : l'.states = l.states
  selections : l'.selections = l.selections
  selectionCount : l'.selectionCount = l.selectionCount
  stateCount : l.stateCount ≤ l'.stateCount

theorem Grows.refl (h : l.Balanced) :
  l.Grows l
  := ⟨h, rfl, rfl, rfl, le_refl _⟩

theorem Grows.trans (h : l.Grows l') (h' : l'.Grows l'') :
  l.Grows l''
  := ⟨h'.balanced, h'.states.trans h.states, h'.selections.trans h.selections,
    h'.selectionCount.trans h.selectionCount, h.stateCount.trans h'.stateCount⟩

theorem Balanced.grows_create (h : l.Balanced) :
  l.Grows l.create
  := by
  obtain ⟨hbalanced, hstates⟩ := h.create
  exact ⟨hbalanced, hstates, rfl, rfl, Nat.le_succ _⟩

/-- The state of an endpoint is found or created. -/
theorem Balanced.ewmaEndpointState (h : l.Balanced) {states : States} (hmaps : l.Maps states)
    (e : ServiceEndpoint urls) :
  l.Grows (ewmaEndpointState l states e).1 ∧
    (EWMA.ewmaEndpointState l states e).1.Maps (EWMA.ewmaEndpointState l states e).2.1 ∧
    (EWMA.ewmaEndpointState l states e).2.2 < (EWMA.ewmaEndpointState l states e).1.stateCount
  := by
  rw [EWMA.ewmaEndpointState]
  cases hstate : states.get? (endpointIdentity e) with
  | some state => exact ⟨.refl h, hmaps, hmaps _ _ hstate⟩
  | none =>
      refine ⟨h.grows_create, ?_, Nat.lt_succ_self _⟩
      intro k s hs
      dsimp only at hs
      rw [JsMap.get?_set] at hs
      split at hs
      · cases hs
        exact Nat.lt_succ_self _
      · exact (hmaps k s hs).trans (Nat.lt_succ_self _)

/-- The states of two endpoints are found or created. -/
theorem Balanced.ewmaEndpoint (h : l.Balanced) {states : States} (hmaps : l.Maps states)
    (first second : ServiceEndpoint urls) (now : ℚ) :
  l.Grows (ewmaEndpoint l states first second now).1 ∧
    (EWMA.ewmaEndpoint l states first second now).1.Maps
      (EWMA.ewmaEndpoint l states first second now).2.1
  := by
  obtain ⟨hfirst, hmapsFirst, -⟩ := h.ewmaEndpointState hmaps first
  obtain ⟨hsecond, hmapsSecond, -⟩ := hfirst.balanced.ewmaEndpointState hmapsFirst second
  exact ⟨hfirst.trans hsecond, hmapsSecond⟩

end Ledger

/-! ### Steps -/

/-- What holds of a selector. -/
structure World.Sound (w : World ε) : Prop where
  ledger : w.ledger.Balanced
  maps : ∀ domain states, w.domains.get? domain = some states → w.ledger.Maps states

/-- The selections that have been issued keep their endpoint states and their observations. -/
def Ledger.Keeps (l l' : Ledger ε) : Prop :=
  ∀ d < l.selectionCount, (l'.selections d).state = (l.selections d).state ∧
    (l'.selections d).observation = (l.selections d).observation

namespace World

variable {w w' : World ε} {reply : Reply ε urls} {event : Event ε}

theorem sound_newWorld :
  (newWorld : World ε).Sound
  := by
  constructor
  case ledger => exact Ledger.balanced_new
  case maps =>
    intro domain states h
    rw [newWorld, JsMap.get?_empty] at h
    cases h

/-- The ledger keeps the endpoint states that there are. -/
theorem Sound.withLedger (h : w.Sound) {l : Ledger ε} (hl : l.Balanced)
    (hcount : l.stateCount = w.ledger.stateCount) :
  Sound { w with ledger := l }
  := by
  constructor
  case ledger => exact hl
  case maps =>
    intro domain states hdomain k s hs
    dsimp only
    rw [hcount]
    exact h.maps domain states hdomain k s hs

/-- The state with which an endpoint is selected. -/
theorem Sound.selectEndpoint (h : w.Sound) (r : Sampling urls) :
  (selectEndpoint w r).1.Sound ∧
    ∃ l s, w.ledger.Grows l ∧ (EWMA.selectEndpoint w r).1.ledger = startEWMAObservation l s r.now
  := by
  have hmaps : w.ledger.Maps
      (retained ((w.domains.get? (selectionDomain r.candidates.snapshot)).getD .empty)
        r.candidates.endpoints) := by
    intro k s hs
    rw [get?_retained] at hs
    split at hs
    · cases hdomain : w.domains.get? (selectionDomain r.candidates.snapshot) with
      | none =>
          rw [hdomain, Option.getD_none, JsMap.get?_empty] at hs
          cases hs
      | some states =>
          rw [hdomain, Option.getD_some] at hs
          exact h.maps _ _ hdomain k s hs
    · cases hs
  have hfinish : ∀ (l : Ledger ε) (states : States) (selected : ServiceEndpoint urls),
      w.ledger.Grows l → l.Maps states →
      Sound ⟨startEWMAObservation (ewmaEndpointState l states selected).1
          (ewmaEndpointState l states selected).2.2 r.now,
        w.domains.remember maximumSelectionDomains (selectionDomain r.candidates.snapshot)
          (ewmaEndpointState l states selected).2.1⟩ ∧
        w.ledger.Grows (ewmaEndpointState l states selected).1 := by
    intro l states selected hl hstates
    obtain ⟨hgrows, hmapped, hstate⟩ := hl.balanced.ewmaEndpointState hstates selected
    refine ⟨?_, hl.trans hgrows⟩
    constructor
    case ledger => exact hgrows.balanced.start hstate r.now
    case maps =>
      intro domain kept hkept
      by_cases hdomain : domain = selectionDomain r.candidates.snapshot
      · rw [hdomain, JsMap.get?_remember_self] at hkept
        cases hkept
        exact hmapped
      · have hold := JsMap.get?_of_remember hdomain hkept
        intro k s hs
        exact Nat.lt_of_lt_of_le (h.maps domain kept hold k s hs) (hl.trans hgrows).stateCount
  rw [EWMA.selectEndpoint]
  cases r.sampled with
  | none =>
      obtain ⟨hsound, hgrows⟩ := hfinish w.ledger _ r.candidates.first (.refl h.ledger) hmaps
      exact ⟨hsound, _, _, hgrows, rfl⟩
  | some pair =>
      obtain ⟨hboth, hmapsBoth⟩ := h.ledger.ewmaEndpoint hmaps pair.1 pair.2 r.now
      obtain ⟨hsound, hgrows⟩ := hfinish _ _
        (EWMA.ewmaEndpoint w.ledger _ pair.1 pair.2 r.now).2.2 hboth hmapsBoth
      exact ⟨hsound, _, _, hgrows, rfl⟩

/-- What a selection has read has the time that the clock shows. -/
theorem now_of_readSelection {call : SelectCall ε} {clock first second : SourceResult ε}
    {r : Sampling urls} (hread : readSelection urls call clock first second = .ok r) :
  monotonicNow clock = .ok r.now
  := by
  obtain ⟨c, -, hread⟩ := Except.bind_eq_ok_iff.1 hread
  obtain ⟨now, hnow, hread⟩ := Except.bind_eq_ok_iff.1 hread
  obtain ⟨sampled, -, ⟨⟩⟩ := Except.bind_eq_ok_iff.1 hread
  exact hnow

/-- What a completion has read has the time that the clock shows. -/
theorem completedAt_of_readCompletion {error : Option ε} {clock : SourceResult ε}
    {standard : Except (SelectorError ε) Bool} {callback : CallbackResult ε} {value : ℚ × Bool}
    (hread : readCompletion hasCallback error clock standard callback = .ok value) :
  monotonicNow clock = .ok value.1
  := by
  obtain ⟨completedAt, hnow, hread⟩ := Except.bind_eq_ok_iff.1 hread
  obtain ⟨failed, -, ⟨⟩⟩ := Except.bind_eq_ok_iff.1 hread
  exact hnow

/-- The latency of an endpoint changes by the completion of one of its selections: it is a mean of
the latency before, and of the time since that selection was issued. -/
structure Averages (w w' : World ε) (s d : ℕ) (clock : SourceResult ε) : Prop where
  before : d ∈ w.ledger.pending s
  after : d ∉ w'.ledger.pending s
  latency : ∃ completedAt factor, monotonicNow clock = .ok completedAt ∧ 0 ≤ factor ∧ factor ≤ 1 ∧
    (w'.ledger.states s).latencyMs = (w.ledger.states s).latencyMs * factor +
      max (completedAt - (w.ledger.selections d).observation.startedAt) 0 * (1 - factor)

/-- What a step does to the selections that were issued and to the latencies. -/
structure Steps (w : World ε) (event : Event ε) (w' : World ε) (reply : Reply ε urls) : Prop where
  sound : w'.Sound
  keeps : w.ledger.Keeps w'.ledger
  issues : ∀ call clock first second e d, event = .select call clock first second →
    reply = .selected e d → d = w.ledger.selectionCount ∧
      monotonicNow clock = .ok (w'.ledger.selections d).observation.startedAt
  latency : ∀ s, (w'.ledger.states s).latencyMs = (w.ledger.states s).latencyMs ∨
    ∃ d clock standard callback, event = .settles s clock standard callback ∧
      w.Averages w' s d clock

/-- Only how far a callback has got changes. -/
theorem Sound.steps_setCompletion (h : w.Sound) {d : ℕ} {completion : Completion}
    (hd : d < w.ledger.selectionCount) (hopen : (w.ledger.selections d).completion ≠ .completed)
    (hqueued : (w.ledger.selections d).completion ≠ .queued) (hcompleted : completion ≠ .completed)
    (hevent : ∀ call clock first second, event ≠ .select call clock first second) :
  w.Steps event { w with ledger := w.ledger.setCompletion d completion } reply
  := by
  constructor
  case sound => exact h.withLedger (h.ledger.setCompletion hd hopen hqueued hcompleted) rfl
  case keeps => exact fun d' _ => w.ledger.sameSelection_setCompletion d completion d'
  case issues => exact fun call clock first second _ _ he _ => absurd he (hevent _ _ _ _)
  case latency => exact fun s => .inl rfl

/-- A selection that is refused, or a callback that is called again, changes nothing. -/
theorem Sound.steps_refl (h : w.Sound) (hreply : ∀ e d, reply ≠ .selected e d) :
  w.Steps event w reply
  := by
  constructor
  case sound => exact h
  case keeps => exact fun d _ => ⟨rfl, rfl⟩
  case issues => exact fun _ _ _ _ e d _ hselected => absurd hselected (hreply e d)
  case latency => exact fun s => .inl rfl

/-- An endpoint is selected. -/
theorem Sound.steps_select (h : w.Sound) {call : SelectCall ε} {clock first second : SourceResult ε}
    {r : Sampling urls} (hread : readSelection urls call clock first second = .ok r) :
  w.Steps (.select call clock first second) (EWMA.selectEndpoint w r).1
    (.selected (EWMA.selectEndpoint w r).2 w.ledger.selectionCount)
  := by
  obtain ⟨hsound, l, s, hgrows, hledger⟩ := h.selectEndpoint r
  constructor
  case sound => exact hsound
  case keeps =>
    intro d hd
    rw [← hgrows.selectionCount] at hd
    rw [hledger, Ledger.selections_start l s r.now (ne_of_lt hd), hgrows.selections]
    exact ⟨rfl, rfl⟩
  case issues =>
    rintro _ _ _ _ e d ⟨⟩ ⟨⟩
    rw [hledger, ← hgrows.selectionCount, Ledger.selection_start]
    exact ⟨rfl, now_of_readSelection hread⟩
  case latency =>
    intro s'
    left
    rw [hledger, ← hgrows.states]
    by_cases hs : s' = s
    · rw [hs, Ledger.states_start_self]
      rfl
    · rw [Ledger.states_start_of_ne l hs]

/-- The completion of a callback waits for its turn. -/
theorem Sound.steps_admits (h : w.Sound) {d : ℕ} {error : Option ε}
    (hd : d < w.ledger.selectionCount)
    (hadmitting : (w.ledger.selections d).completion = .admitting) :
  w.Steps (.admits d error) { w with ledger := (queueCompletion urls w.ledger d error).1 } reply
  := by
  constructor
  case sound => exact h.withLedger (h.ledger.waits hd hadmitting) rfl
  case keeps => exact fun d' _ => Ledger.sameSelection_setCompletion _ d .queued d'
  case issues => rintro _ _ _ _ e d ⟨⟩
  case latency =>
    intro s
    left
    rw [queueCompletion]
    dsimp only [Ledger.setCompletion]
    rw [Ledger.states_setState]
    split
    · rename_i hs
      rw [hs]
    · rfl

/-- The running completion of an endpoint ends. -/
theorem Sound.steps_settles (h : w.Sound) {s : ℕ} {q : QueuedCompletion ε}
    {others : List (QueuedCompletion ε)} {clock : SourceResult ε}
    {standard : Except (SelectorError ε) Bool} {callback : CallbackResult ε}
    (hqueue : (w.ledger.states s).completionQueue = q :: others) :
  w.Steps (.settles s clock standard callback)
    { w with
      ledger := (nextCompletion urls (settleEWMASelection decay w.ledger s q.selection
        (readCompletion hasCallback q.failure clock standard callback)) s others).1 } reply
  := by
  have hmem : q ∈ (w.ledger.states s).completionQueue := by
    rw [hqueue]
    exact List.mem_cons_self
  obtain ⟨hd, hstate, hqueued⟩ := h.ledger.queued s q hmem
  have hopen : (w.ledger.selections q.selection).completion ≠ .completed := by
    rw [hqueued]
    decide
  have hbalanced : (nextCompletion urls (settleEWMASelection decay w.ledger s q.selection
      (readCompletion hasCallback q.failure clock standard callback)) s others).1.Balanced :=
    h.ledger.settles hqueue _
  cases hread : readCompletion hasCallback q.failure clock standard callback with
  | error cause =>
      rw [hread] at hbalanced
      rw [Ledger.nextCompletion_settle] at hbalanced ⊢
      constructor
      case sound => exact h.withLedger hbalanced rfl
      case keeps => exact fun d' _ => Ledger.sameSelection_setCompletion _ q.selection _ d'
      case issues => rintro _ _ _ _ e d ⟨⟩
      case latency =>
        intro s'
        left
        dsimp only [Ledger.setCompletion]
        rw [Ledger.states_setState]
        split
        · rename_i hs
          rw [hs]
          rfl
        · rfl
  | ok value =>
      rw [hread] at hbalanced
      rw [Ledger.nextCompletion_settle] at hbalanced ⊢
      constructor
      case sound => exact h.withLedger hbalanced rfl
      case keeps => exact fun d' _ => Ledger.sameSelection_setCompletion _ q.selection _ d'
      case issues => rintro _ _ _ _ e d ⟨⟩
      case latency =>
        intro s'
        by_cases hs : s' = s
        · right
          subst hs
          refine ⟨q.selection, clock, standard, callback, rfl, ?_⟩
          constructor
          case before => exact Ledger.mem_pending.2 ⟨hd, hstate, hopen⟩
          case after =>
            intro hpending
            exact ((Ledger.mem_pending_setCompletion
              (l := w.ledger.setState s' _) hopen).1 hpending).2 ⟨rfl, rfl⟩
          case latency =>
            obtain ⟨hzero, hone⟩ := decayFactor_mem decay (w.ledger.states s') value.1
            refine ⟨value.1, _, completedAt_of_readCompletion hread, hzero, hone, ?_⟩
            dsimp only [Ledger.setCompletion]
            rw [Ledger.states_setState, if_pos rfl]
            rfl
        · left
          dsimp only [Ledger.setCompletion]
          rw [Ledger.states_setState, if_neg hs]

/-- A step of a selector. -/
theorem Sound.steps (h : w.Sound)
    (hstep : step urls decay hasCallback w event = some (w', reply)) :
  w.Steps event w' reply
  := by
  cases event with
  | select call clock first second =>
      rw [step] at hstep
      cases hread : readSelection urls call clock first second with
      | error cause =>
          rw [hread] at hstep
          cases hstep
          exact h.steps_refl (by rintro e d ⟨⟩)
      | ok r =>
          rw [hread] at hstep
          cases hstep
          exact h.steps_select hread
  | done d =>
      obtain ⟨hd, hstep⟩ := Option.ite_none_right_eq_some.1 hstep
      split at hstep
      · rename_i hopened
        cases hstep
        apply h.steps_setCompletion hd
        · rw [hopened]
          decide
        · rw [hopened]
          decide
        · decide
        · rintro _ _ _ _ ⟨⟩
      · cases hstep
        exact h.steps_refl (by rintro e d ⟨⟩)
  | admits d error =>
      obtain ⟨⟨hd, hadmitting⟩, ⟨⟩⟩ := Option.ite_none_right_eq_some.1 hstep
      exact h.steps_admits hd hadmitting
  | refuses d cause =>
      obtain ⟨⟨hd, hadmitting⟩, ⟨⟩⟩ := Option.ite_none_right_eq_some.1 hstep
      apply h.steps_setCompletion hd
      · rw [hadmitting]
        decide
      · rw [hadmitting]
        decide
      · decide
      · rintro _ _ _ _ ⟨⟩
  | settles s clock standard callback =>
      rw [step] at hstep
      cases hqueue : (w.ledger.states s).completionQueue with
      | nil =>
          rw [hqueue] at hstep
          cases hstep
      | cons q others =>
          rw [hqueue] at hstep
          cases hstep
          exact h.steps_settles hqueue

/-- A run of a selector. -/
theorem Sound.run {events : List (Event ε)} (h : w.Sound)
    (hrun : run urls decay hasCallback w events = some w') :
  w'.Sound
  := by
  induction events generalizing w with
  | nil =>
      cases hrun
      exact h
  | cons event events ih =>
      rw [EWMA.run] at hrun
      cases hstep : step urls decay hasCallback w event with
      | none =>
          rw [hstep] at hrun
          cases hrun
      | some result =>
          rw [hstep] at hrun
          exact ih (h.steps hstep).sound hrun

end World

/-! ### Every run -/

/-- In every run: the counter of an endpoint is one more than its selections that are not completed;
a slot of its ring is taken exactly by the observation of the selection it was given to, which is
tracked and not completed; its success is within the scale, its latency is not negative, and its
load is positive at all times. In every step from there, the selections that were issued keep their
observations, a new one begins at what the clock shows, and the latency of an endpoint changes only
by the completion of one selection of it, with the time since that selection began. -/
theorem ewma_balanced {events : List (Event ε)} {w : World ε}
    (hrun : run urls decay hasCallback newWorld events = some w) :
  (∀ s, (w.ledger.states s).inFlight = 1 + (w.ledger.pending s).card) ∧
  (∀ s slot o, (w.ledger.states s).observations slot = some o ↔ w.ledger.Given s slot o) ∧
  (∀ s, 0 ≤ (w.ledger.states s).success ∧ (w.ledger.states s).success ≤ 1000 ∧
    0 ≤ (w.ledger.states s).latencyMs ∧ ∀ now, 0 < ewmaLoad (w.ledger.states s) now) ∧
  (∀ event w' reply, step urls decay hasCallback w event = some (w', reply) →
    w.ledger.Keeps w'.ledger ∧
    (∀ call clock first second e d, event = .select call clock first second →
      reply = .selected e d → d = w.ledger.selectionCount ∧
        monotonicNow clock = .ok (w'.ledger.selections d).observation.startedAt) ∧
    ∀ s, (w'.ledger.states s).latencyMs = (w.ledger.states s).latencyMs ∨
      ∃ d clock standard callback, event = .settles s clock standard callback ∧
        w.Averages w' s d clock)
  := by
  have h : w.Sound := World.sound_newWorld.run hrun
  refine ⟨h.ledger.inFlight, h.ledger.ring, fun s => ?_, fun event w' reply hstep => ?_⟩
  · have hbounded := h.ledger.bounded s
    have hinFlight : 0 < (w.ledger.states s).inFlight := by
      rw [h.ledger.inFlight]
      omega
    exact ⟨hbounded.success.1, hbounded.success.2, hbounded.latency,
      ewmaLoad_pos hbounded hinFlight⟩
  · have hsteps := h.steps hstep
    exact ⟨hsteps.keeps, hsteps.issues, hsteps.latency⟩

/-- A factor that forgets nothing and learns nothing. -/
def constantDecay : Decay := ⟨fun _ => 1, fun _ => zero_le_one, fun _ => le_refl 1⟩

/-- The books are balanced after a selection that has been completed. -/
theorem ewma_balanced_completed :
  ∃ w : World Unit, run anyUrls constantDecay false newWorld
      [.select (soleCall (alone 0)) (.number (.ofNat 5)) .other .other, .done 0, .admits 0 none,
        .settles 0 (.number (.ofNat 9)) (.ok false) .other] = some w ∧
    (w.ledger.selections 0).completion = .completed ∧
    (w.ledger.states 0).inFlight = 1 + (w.ledger.pending 0).card
  := by
  have hread : readSelection anyUrls (soleCall (alone 0)) (.number (.ofNat 5)) .other .other =
      (.ok ⟨⟨[alone 0], ⟨alone 0, endpointOne⟩, []⟩, 5, none⟩ :
        Except (SelectorError Unit) (Sampling anyUrls)) := by
    rw [readSelection, candidates_sole (x := alone 0) rfl]
    rfl
  have hrun : ∃ w : World Unit, run anyUrls constantDecay false newWorld
      [.select (soleCall (alone 0)) (.number (.ofNat 5)) .other .other, .done 0, .admits 0 none,
        .settles 0 (.number (.ofNat 9)) (.ok false) .other] = some w ∧
      (w.ledger.selections 0).completion = .completed := by
    rw [run, step, hread]
    exact ⟨_, rfl, rfl⟩
  obtain ⟨w, hrun, hcompleted⟩ := hrun
  exact ⟨w, hrun, hcompleted, (ewma_balanced hrun).1 0⟩

end Registry.EWMA
