import GoLike.Registry.Selector.PowerOfTwoDomains

/-!
# Runs of power of two choices

In every run the books are balanced, callbacks take effect once, and an endpoint in cooldown is
selected only when all are. The directory is in order while no selection adds its domain in a
callback of one that holds the domain, or when there is no place for it.
-/

open Store

namespace Registry.P2C

variable {urls : UrlParser} {ε : Type} {b : P2CSelector}

/-! ### What a step can do -/

/-- What the clock has shown at a selection, once it has been read. -/
def Selecting.reading (f : Selecting urls) (result : SourceResult ε) : Option ℚ :=
  match f.phase with
  | .clock => (monotonicNow result).toOption
  | .firstSample now => some now
  | .secondSample now _ => some now

/-- The endpoints that are selected from. -/
def Selecting.endpoints (f : Selecting urls) : List (ServiceEndpoint urls) := f.first :: f.rest

/-- What a caller does, what it makes of the world, and how the call goes on. -/
inductive Stepped (b : P2CSelector) :
    World ε urls → Event ε urls → World ε urls → Reply ε urls → Prop where
  | fails {w : World ε urls} {call : SelectCall ε} {e : SelectorError ε}
      (h : candidates urls call = .error e) :
      Stepped b w (.select call) w (.threw (.single e))
  | finds {w : World ε urls} {call : SelectCall ε} {c : Candidates urls} {state : ℕ}
      (h : candidates urls call = .ok c)
      (hkept : w.directory.domains.get? (selectionDomain c.snapshot) = some state) :
      Stepped b w (.select call)
        { w with
          stack := .selecting
            ⟨⟨selectionDomain c.snapshot, false, state⟩, c.first, c.rest, .clock⟩ :: w.stack }
        .reads
  | adds {w : World ε urls} {call : SelectCall ε} {c : Candidates urls}
      (h : candidates urls call = .ok c)
      (hnone : w.directory.domains.get? (selectionDomain c.snapshot) = none) :
      Stepped b w (.select call)
        { w with
          directory := w.directory.add (selectionDomain c.snapshot)
          stack := .selecting
            ⟨⟨selectionDomain c.snapshot, true, w.directory.domainCount⟩, c.first, c.rest,
              .clock⟩ :: w.stack }
        .reads
  | ignores {w : World ε urls} {d : ℕ} :
      Stepped b w (.done d) w .returned
  | admits {w : World ε urls} {d : ℕ} (hcount : d < w.ledger.selectionCount)
      (hopened : (w.ledger.selections d).completion = .opened) :
      Stepped b w (.done d)
        { w with
          ledger := w.ledger.setCompletion d .admitting
          stack := .admitting d :: w.stack }
        .reads
  | aborts {w : World ε urls} {f : Selecting urls} {stack : List (Frame ε urls)}
      {result : SourceResult ε} {e : SelectorError ε} (hstack : w.stack = .selecting f :: stack) :
      Stepped b w (.answer result)
        { w with directory := abortSelect w.directory f.toHolding, stack := stack }
        (.threw (.single e))
  | samples {w : World ε urls} {f : Selecting urls} {stack : List (Frame ε urls)}
      {result : SourceResult ε} {next : SelectPhase} (hstack : w.stack = .selecting f :: stack) :
      Stepped b w (.answer result)
        { w with stack := .selecting { f with phase := next } :: stack } .reads
  | selects {w : World ε urls} {f : Selecting urls} {stack : List (Frame ε urls)}
      {result : SourceResult ε} {now : ℚ} {samples : Option (ℚ × ℚ)}
      {selected : ServiceEndpoint urls} (hstack : w.stack = .selecting f :: stack)
      (hreading : f.reading result = some now)
      (hchosen : p2cEndpoint b w.ledger (w.directory.endpoints f.state) f.first f.rest now samples =
        some selected) :
      Stepped b w (.answer result)
        { ledger := (finishSelect w.ledger w.directory f selected).1
          directory := (finishSelect w.ledger w.directory f selected).2
          stack := stack }
        (.selected selected w.ledger.selectionCount)
  | settles {w : World ε urls} {f : Settling ε} {stack : List (Frame ε urls)}
      {result : SourceResult ε} (hstack : w.stack = .settling f :: stack) :
      Stepped b w (.answer result)
        (afterCompletions { w with stack := stack }
          (settleCompletion b urls f result w.ledger)).1
        (settleCompletion b urls f result w.ledger).2.2
  | queues {w : World ε urls} {d : ℕ} {stack : List (Frame ε urls)} {failure : Option ε}
      (hstack : w.stack = .admitting d :: stack) :
      Stepped b w (.admits failure)
        (afterCompletions { w with stack := stack }
          (queueCompletion b urls d failure w.ledger)).1
        (queueCompletion b urls d failure w.ledger).2.2
  | refuses {w : World ε urls} {d : ℕ} {stack : List (Frame ε urls)} {e : SelectorError ε}
      (hstack : w.stack = .admitting d :: stack) :
      Stepped b w (.refuse e)
        { w with ledger := w.ledger.setCompletion d .opened, stack := stack }
        (.threw (.single e))

variable {w w' : World ε urls} {reply : Reply ε urls}

variable {f : Selecting urls} {stack : List (Frame ε urls)} {result : SourceResult ε}

/-- A selection that goes on selects an endpoint, or takes another sample. -/
theorem stepped_proceedSelect {now : ℚ} {samples : Option (ℚ × ℚ)} {next : SelectPhase}
    (hstack : w.stack = .selecting f :: stack) (hreading : f.reading result = some now)
    (h : proceedSelect b { w with stack := stack } f now samples next = (w', reply)) :
  Stepped b w (.answer result) w' reply
  := by
  rw [proceedSelect] at h
  split at h
  · rename_i selected hchosen
    cases h
    exact .selects hstack hreading hchosen
  · cases h
    exact .samples hstack

theorem stepped_answerSelect (hstack : w.stack = .selecting f :: stack)
    (h : answerSelect b { w with stack := stack } f result = (w', reply)) :
  Stepped b w (.answer result) w' reply
  := by
  rw [answerSelect] at h
  split at h
  · rename_i hphase
    split at h
    · cases h
      exact .aborts hstack
    · rename_i now hnow
      apply stepped_proceedSelect hstack _ h
      rw [Selecting.reading, hphase]
      dsimp only
      rw [hnow]
      rfl
  · rename_i now hphase
    split at h
    · cases h
      exact .aborts hstack
    · apply stepped_proceedSelect hstack _ h
      rw [Selecting.reading, hphase]
  · rename_i now sample hphase
    split at h
    · cases h
      exact .aborts hstack
    · apply stepped_proceedSelect hstack _ h
      rw [Selecting.reading, hphase]

variable {event : Event ε urls}

/-- A step is one of these. -/
theorem stepped (h : step b w event = some (w', reply)) :
  Stepped b w event w' reply
  := by
  cases event with
  | select call =>
      rw [step, Option.some.injEq, beginSelect] at h
      split at h
      · rename_i e hc
        cases h
        exact .fails hc
      · rename_i c hc
        dsimp only at h
        split at h
        · rename_i state hkept
          cases h
          exact .finds hc hkept
        · rename_i hnone
          cases h
          exact .adds hc hnone
  | done d =>
      rw [step] at h
      split at h
      · rename_i hcount
        split at h
        · rename_i hopened
          cases h
          exact .admits hcount hopened
        · cases h
          exact .ignores
      · cases h
  | answer result =>
      rw [step] at h
      split at h
      · rename_i f stack hstack
        exact stepped_answerSelect hstack (Option.some.inj h)
      · rename_i f stack hstack
        cases h
        exact .settles hstack
      · cases h
  | admits failure =>
      rw [step] at h
      split at h
      · rename_i d stack hstack
        cases h
        exact .queues hstack
      · cases h
  | refuse e =>
      rw [step] at h
      split at h
      · rename_i d stack hstack
        cases h
        exact .refuses hstack
      · cases h

/-! ### Choices -/

theorem earliestCooldownEndpoint_mem (l : Ledger ε) (states : JsMap JsString ℕ)
    (first : ServiceEndpoint urls) (rest : List (ServiceEndpoint urls)) :
  earliestCooldownEndpoint l states first rest ∈ first :: rest
  := by
  induction rest generalizing first with
  | nil => exact List.mem_cons_self
  | cons e rest ih =>
      rw [earliestCooldownEndpoint, List.foldl_cons]
      obtain heq | hmem := List.mem_cons.mp (ih _)
      · rw [earliestCooldownEndpoint] at heq
        rw [heq]
        split
        · exact List.mem_cons_of_mem _ List.mem_cons_self
        · exact List.mem_cons_self
      · exact List.mem_cons_of_mem _ (List.mem_cons_of_mem _ hmem)

/-- An endpoint in cooldown is selected only when all the endpoints are. -/
theorem p2cEndpoint_available {l : Ledger ε} {states : JsMap JsString ℕ}
    {first selected : ServiceEndpoint urls} {rest : List (ServiceEndpoint urls)} {now : ℚ}
    {samples : Option (ℚ × ℚ)}
    (h : p2cEndpoint b l states first rest now samples = some selected) :
  selected ∈ first :: rest ∧
    (endpointCooldown l states selected ≤ now ∨
      ∀ e ∈ first :: rest, now < endpointCooldown l states e)
  := by
  have heligible : ∀ e ∈ eligibleP2CEndpoints l states now (first :: rest),
      e ∈ first :: rest ∧ endpointCooldown l states e ≤ now := by
    intro e he
    obtain ⟨hmem, hle⟩ := List.mem_filter.mp he
    exact ⟨hmem, of_decide_eq_true hle⟩
  rw [p2cEndpoint] at h
  split at h
  · rename_i hnone
    cases h
    constructor
    · exact earliestCooldownEndpoint_mem l states first rest
    · right
      intro e he
      rw [← not_le]
      intro hle
      have hmem : e ∈ eligibleP2CEndpoints l states now (first :: rest) :=
        List.mem_filter.mpr ⟨he, decide_eq_true hle⟩
      rw [hnone] at hmem
      exact absurd hmem List.not_mem_nil
  · rename_i e hsingle
    cases h
    obtain ⟨hmem, hle⟩ := heligible _ (by rw [hsingle]; exact List.mem_singleton_self _)
    exact ⟨hmem, .inl hle⟩
  · rename_i e es _ hlist
    obtain ⟨s, _, rfl⟩ := Option.map_eq_some_iff.mp h
    have hsampled : sampledP2CEndpoint b l states e es s.1 s.2 ∈ e :: es := by
      rw [sampledP2CEndpoint]
      split
      · split
        · exact itemAt_mem _ _ _
        · exact itemAt_mem _ _ _
      · split
        · exact itemAt_mem _ _ _
        · exact itemAt_mem _ _ _
    obtain ⟨hmem, hle⟩ := heligible _ (by rw [hlist]; exact hsampled)
    exact ⟨hmem, .inl hle⟩

/-! ### Sound worlds -/

def Frame.admitting? : Frame ε urls → Option ℕ
  | .admitting d => some d
  | _ => none

def Frame.settling? : Frame ε urls → Option (Settling ε)
  | .settling f => some f
  | _ => none

def Frame.holding? : Frame ε urls → Option Holding
  | .selecting f => some f.toHolding
  | _ => none

/-- The books are balanced, and the endpoint states of domains exist. -/
structure Sound (w : World ε urls) : Prop where
  balanced : Balanced w.ledger
  engaged : Engaged w.ledger (w.stack.filterMap Frame.admitting?)
    (w.stack.filterMap Frame.settling?) []
  mapped : ∀ domainState endpoint state,
    (w.directory.endpoints domainState).get? endpoint = some state → state < w.ledger.stateCount

theorem sound_newWorld :
  Sound (newWorld : World ε urls)
  := by
  constructor
  case balanced => exact balanced_newLedger
  case engaged => exact engaged_newLedger
  case mapped => rintro _ _ _ ⟨⟩

/-- Selections and callbacks are kept, and the books change only with them. -/
structure Advances (l l' : Ledger ε) : Prop where
  stays : l.effects ⊆ l'.effects
  books : ∀ s, (∀ d ∈ l'.effects, (l'.selections d).state = s → d ∈ l.effects) →
    (∀ d, l.selectionCount ≤ d → d < l'.selectionCount → (l'.selections d).state ≠ s) →
    SameBooks (l.states s) (l'.states s)

theorem Changes.advances {among : List ℕ} {l l' : Ledger ε} (h : Changes among l l') :
  Advances l l'
  := by
  constructor
  case stays => exact h.stays
  case books =>
    intro s heffects _
    apply h.books
    intro d hd hstate
    rw [← h.states d] at hstate
    exact heffects d hd hstate

theorem Advances.refl (l : Ledger ε) :
  Advances l l
  := ⟨fun _ h => h, fun _ _ _ => .refl _⟩

/-- The ledger after completions have been run. -/
theorem Ran.sound {among : List ℕ} {outcome : Ledger ε × Option (Settling ε) × Reply ε urls}
    (hw : Sound w)
    (h : Ran w.ledger (stack.filterMap Frame.admitting?) (stack.filterMap Frame.settling?) among outcome) :
  Sound (afterCompletions { w with stack := stack } outcome).1
  := by
  obtain ⟨l, f?, reply⟩ := outcome
  constructor
  case balanced => exact h.balanced
  case engaged =>
    match f? with
    | none => exact h.engaged
    | some f => exact h.engaged
  case mapped =>
    intro domainState endpoint state hstate
    exact (hw.mapped domainState endpoint state hstate).trans_eq h.changes.stateCount.symm

/-! ### What a step preserves -/

theorem endpoints_abortSelect (directory : Directory) (f : Holding) :
  (abortSelect directory f).endpoints = directory.endpoints
  := by
  rw [abortSelect]
  split
  · rfl
  · rfl

/-- The world after a selection. -/
theorem Sound.finish (hw : Sound w) (hstack : w.stack = .selecting f :: stack)
    (selected : ServiceEndpoint urls) :
  Sound
    { ledger := (finishSelect w.ledger w.directory f selected).1
      directory := (finishSelect w.ledger w.directory f selected).2
      stack := stack }
  := by
  have hengaged := hw.engaged
  rw [hstack] at hengaged
  have hselected := selected_selectedP2CState w.ledger (w.directory.endpoints f.state)
    (f.first :: f.rest) selected
  rw [finishSelect]
  generalize selectedP2CState w.ledger (w.directory.endpoints f.state) (f.first :: f.rest)
    selected = chosen at hselected
  obtain ⟨hcount, hmapped⟩ := hselected.mapped (hw.mapped f.state)
  have hledger : Balanced chosen.1 ∧ Engaged chosen.1 (stack.filterMap Frame.admitting?)
      (stack.filterMap Frame.settling?) [] ∧ w.ledger.stateCount ≤ chosen.1.stateCount := by
    obtain heq | heq := hselected.ledger
    · rw [heq]
      exact ⟨hw.balanced, hengaged, le_rfl⟩
    · rw [heq]
      exact ⟨hw.balanced.create, hengaged.create hw.balanced, Nat.le_succ _⟩
  obtain ⟨hbalanced, hengaged, hle⟩ := hledger
  constructor
  case balanced => exact hbalanced.issue hcount
  case engaged => exact hengaged.issue _
  case mapped =>
    intro domainState endpoint state hstate
    rw [endpoints_finish] at hstate
    split at hstate
    · exact hmapped endpoint state hstate
    · exact (hw.mapped domainState endpoint state hstate).trans_le hle

/-- The books stay balanced. -/
theorem Stepped.sound (hw : Sound w) (h : Stepped b w event w' reply) :
  Sound w'
  := by
  have hengaged := hw.engaged
  cases h with
  | fails | ignores => exact hw
  | finds => exact ⟨hw.balanced, hengaged, hw.mapped⟩
  | adds =>
      refine ⟨hw.balanced, hengaged, ?_⟩
      intro domainState endpoint state hstate
      rw [endpoints_add] at hstate
      split at hstate
      · cases hstate
      · exact hw.mapped domainState endpoint state hstate
  | admits hcount hopened =>
      obtain ⟨hnew, hwaiting⟩ := hw.balanced.not_queued (.inl hopened)
      exact ⟨hw.balanced.setCompletion hnew (by rintro ⟨⟩) hwaiting,
        hengaged.admits hcount hopened, hw.mapped⟩
  | aborts hstack =>
      rw [hstack] at hengaged
      refine ⟨hw.balanced, hengaged, ?_⟩
      rw [endpoints_abortSelect]
      exact hw.mapped
  | samples hstack =>
      rw [hstack] at hengaged
      exact ⟨hw.balanced, hengaged, hw.mapped⟩
  | selects hstack => exact hw.finish hstack _
  | settles hstack =>
      rw [hstack] at hengaged
      exact Ran.sound hw (ran_settleCompletion b _ hw.balanced hengaged).1
  | queues hstack =>
      rw [hstack] at hengaged
      obtain ⟨_, hran⟩ := ran_queueCompletion urls b _ hw.balanced hengaged
      exact Ran.sound hw hran
  | refuses hstack =>
      rw [hstack] at hengaged
      obtain ⟨hnew, hwaiting⟩ :=
        hw.balanced.not_queued (.inr (hengaged.admitted _ List.mem_cons_self).2)
      exact ⟨hw.balanced.setCompletion hnew (by rintro ⟨⟩) hwaiting,
        hengaged.admitted_rest .opened, hw.mapped⟩

/-- A selection changes the books of the endpoint state it counts in. -/
theorem Sound.advances_finish (hw : Sound w) (f : Selecting urls)
    (selected : ServiceEndpoint urls) :
  Advances w.ledger (finishSelect w.ledger w.directory f selected).1
  := by
  have hselected := selected_selectedP2CState w.ledger (w.directory.endpoints f.state)
    (f.first :: f.rest) selected
  rw [finishSelect]
  generalize selectedP2CState w.ledger (w.directory.endpoints f.state) (f.first :: f.rest)
    selected = chosen at hselected
  have hledger : chosen.1.states = w.ledger.states ∧ chosen.1.effects = w.ledger.effects ∧
      chosen.1.selectionCount = w.ledger.selectionCount := by
    obtain heq | heq := hselected.ledger
    · rw [heq]
      exact ⟨rfl, rfl, rfl⟩
    · rw [heq]
      exact ⟨states_create hw.balanced, rfl, rfl⟩
  obtain ⟨hstates, heffects, hcount⟩ := hledger
  constructor
  case stays =>
    rw [← heffects]
    exact fun d hd => hd
  case books =>
    intro s _ hissued
    have hne : s ≠ chosen.2.2 := by
      rintro rfl
      apply hissued chosen.1.selectionCount hcount.ge (Nat.lt_succ_self _)
      rw [selections_issue, if_pos rfl]
    rw [states_issue, if_neg hne, hstates]
    exact .refl _

/-- The books change only with selections and callbacks. -/
theorem Stepped.advances (hw : Sound w) (h : Stepped b w event w' reply) :
  Advances w.ledger w'.ledger
  := by
  have hengaged := hw.engaged
  cases h with
  | fails | finds | adds | ignores | aborts | samples => exact .refl _
  | admits | refuses => exact (changes_setCompletion _ _).advances
  | selects => exact hw.advances_finish _ _
  | settles hstack =>
      rw [hstack] at hengaged
      exact (ran_settleCompletion b _ hw.balanced hengaged).1.changes.advances
  | @queues d stack failure hstack =>
      rw [hstack] at hengaged
      obtain ⟨_, hran⟩ := ran_queueCompletion urls b failure hw.balanced hengaged
      exact hran.changes.advances

/-- The selections that have not returned. -/
def World.holdings (w : World ε urls) : List Holding := w.stack.filterMap Frame.holding?

theorem holdings_selecting (hstack : w.stack = .selecting f :: stack) :
  w.holdings = f.toHolding :: stack.filterMap Frame.holding?
  := by
  rw [World.holdings, hstack]
  rfl

theorem holdings_afterCompletions (w : World ε urls)
    (outcome : Ledger ε × Option (Settling ε) × Reply ε urls) :
  (afterCompletions w outcome).1.holdings = w.holdings
  := by
  obtain ⟨l, f?, reply⟩ := outcome
  match f? with
  | none => rfl
  | some f => rfl

/-- The directory stays in order. -/
theorem Stepped.tended {domainOf : ℕ → JsString} (h : Stepped b w event w' reply)
    (horderly : ∀ call c, event = .select call → candidates urls call = .ok c → Orderly w.directory w.holdings (selectionDomain c.snapshot))
    (htended : Tended w.directory w.holdings domainOf) :
  ∃ domainOf', Tended w'.directory w'.holdings domainOf'
  := by
  cases h with
  | fails | ignores | admits => exact ⟨_, htended⟩
  | finds _ hkept => exact ⟨_, htended.kept hkept⟩
  | adds hc hnone => exact ⟨_, htended.fresh hnone (horderly _ _ rfl hc)⟩
  | aborts hstack =>
      rw [holdings_selecting hstack] at htended
      exact ⟨_, htended.abort⟩
  | samples hstack =>
      rw [holdings_selecting hstack] at htended
      exact ⟨_, htended⟩
  | selects hstack =>
      rw [holdings_selecting hstack] at htended
      exact ⟨_, htended.finish _⟩
  | settles hstack | queues hstack =>
      rw [holdings_afterCompletions]
      rw [World.holdings, hstack] at htended
      exact ⟨_, htended⟩
  | refuses hstack =>
      rw [World.holdings, hstack] at htended
      exact ⟨_, htended⟩

/-! ### Moves -/

/-- A step with the worlds before and after it. -/
structure Move (ε : Type) (urls : UrlParser) where
  before : World ε urls
  event : Event ε urls
  after : World ε urls
  reply : Reply ε urls

/-- Moves that follow one another. -/
inductive Runs (b : P2CSelector) : World ε urls → List (Move ε urls) → World ε urls → Prop where
  | nil (w : World ε urls) : Runs b w [] w
  | cons {m : Move ε urls} {moves : List (Move ε urls)} {w : World ε urls}
      (h : step b m.before m.event = some (m.after, m.reply)) (hmoves : Runs b m.after moves w) :
      Runs b m.before (m :: moves) w

namespace Move

/-- A selection that begins for a domain that is not kept finds place, and no selection of the
domain is in progress. -/
def Orderly (m : Move ε urls) : Prop :=
  ∀ call c, m.event = .select call → candidates urls call = .ok c →
    P2C.Orderly m.before.directory m.before.holdings (selectionDomain c.snapshot)

/-- A selection ends with the selection of an endpoint. -/
def Selects (m : Move ε urls) (f : Selecting urls) : Prop :=
  (∃ stack, m.before.stack = .selecting f :: stack) ∧ ∃ e d, m.reply = .selected e d

/-- A domain is evicted: an endpoint is selected in another domain, and there is no place. -/
def Evicts (m : Move ε urls) (domain : JsString) : Prop :=
  ∃ f, m.Selects f ∧ f.domain ≠ domain ∧
    1024 ≤ (m.before.directory.domains.delete f.domain).size ∧
    m.after.directory.domains.get? domain = none

/-- An endpoint is not in the snapshot of a selection in its domain. -/
def Omits (m : Move ε urls) (domain endpoint : JsString) : Prop :=
  ∃ f, m.Selects f ∧ f.domain = domain ∧ endpoint ∉ f.endpoints.map endpointIdentity

/-- What a move guarantees. -/
structure Lawful (b : P2CSelector) (m : Move ε urls) : Prop where
  /-- At most 1,024 domains are kept after a selection. -/
  limited : ∀ e d, m.reply = .selected e d → m.after.directory.domains.size ≤ 1024
  /-- An endpoint that is selected is not in cooldown when the clock is read, or all are. -/
  available : ∀ e d, m.reply = .selected e d →
    ∃ f stack result now, m.before.stack = .selecting f :: stack ∧ m.event = .answer result ∧
      f.reading result = some now ∧ e ∈ f.endpoints ∧
      (endpointCooldown m.before.ledger (m.before.directory.endpoints f.state) e ≤ now ∨
        ∀ e' ∈ f.endpoints,
          now < endpointCooldown m.before.ledger (m.before.directory.endpoints f.state) e')
  /-- What has taken effect stays so. -/
  stays : m.before.ledger.effects ⊆ m.after.ledger.effects
  /-- The books of an endpoint state are the same if no selection is issued that counts in it, and
  the callback of none takes effect. -/
  unchanged : ∀ s,
    (∀ d ∈ m.after.ledger.effects, (m.after.ledger.selections d).state = s →
      d ∈ m.before.ledger.effects) →
    (∀ d, m.before.ledger.selectionCount ≤ d → d < m.after.ledger.selectionCount →
      (m.after.ledger.selections d).state ≠ s) →
    SameBooks (m.before.ledger.states s) (m.after.ledger.states s)
  /-- A callback whose settlement throws has not taken effect, and can be called again. -/
  retried : ∀ f stack result e, m.before.stack = .settling f :: stack →
    m.event = .answer result → monotonicNow result = .error e →
    f.selection ∉ m.after.ledger.effects ∧
      ∃ w, step b m.after (.done f.selection) = some (w, .reads)
  /-- The state of an endpoint is kept while its domain is not evicted, and the endpoint is in the
  snapshots of the domain. -/
  kept : ∀ domain endpoint state, m.before.directory.Keeps domain endpoint state →
    ¬ m.Evicts domain → ¬ m.Omits domain endpoint → m.after.directory.Keeps domain endpoint state

end Move

variable {domainOf : ℕ → JsString}

/-- Completions do not select. -/
theorem runSerializedCompletion_reply (s : ℕ) (errors : List (SelectorError ε)) (l : Ledger ε)
    (queue : List (QueuedCompletion ε)) (e : ServiceEndpoint urls) (d : ℕ) :
  (runSerializedCompletion b urls s errors l queue).2.2 ≠ .selected e d
  := by
  induction queue generalizing l with
  | nil =>
      rw [runSerializedCompletion]
      obtain _ | ⟨error, _ | ⟨error', errors⟩⟩ := errors
      · rintro ⟨⟩
      · rintro ⟨⟩
      · rintro ⟨⟩
  | cons queued others ih =>
      rw [runSerializedCompletion]
      dsimp only
      split
      · exact ih _
      · split
        · rintro ⟨⟩
        · exact ih _

variable {d : ℕ}

/-- A selection is issued when the selection at the top of the stack has read enough. -/
theorem Stepped.selected (h : Stepped b w event w' reply) {e : ServiceEndpoint urls}
    (hreply : reply = .selected e d) :
  ∃ f stack result now, w.stack = .selecting f :: stack ∧ event = .answer result ∧
    f.reading result = some now ∧ e ∈ f.endpoints ∧
    (endpointCooldown w.ledger (w.directory.endpoints f.state) e ≤ now ∨
      ∀ e' ∈ f.endpoints, now < endpointCooldown w.ledger (w.directory.endpoints f.state) e') ∧
    w'.directory = (finishSelect w.ledger w.directory f e).2
  := by
  cases h with
  | selects hstack hreading hchosen =>
      cases hreply
      obtain ⟨hmem, havailable⟩ := p2cEndpoint_available hchosen
      exact ⟨_, _, _, _, hstack, rfl, hreading, hmem, havailable, rfl⟩
  | fails | finds | adds | ignores | admits | aborts | samples | refuses => cases hreply
  | settles =>
      rw [settleCompletion] at hreply
      split at hreply
      · exact absurd hreply (runSerializedCompletion_reply _ _ _ _ _ _)
      · exact absurd hreply (runSerializedCompletion_reply _ _ _ _ _ _)
  | queues =>
      rw [queueCompletion] at hreply
      split at hreply
      · cases hreply
      · exact absurd hreply (runSerializedCompletion_reply _ _ _ _ _ _)

/-- A completion whose reading of the clock fails is called again. -/
theorem Stepped.retried (hw : Sound w) (h : Stepped b w event w' reply) {f : Settling ε}
    {e : SelectorError ε} (hstack : w.stack = .settling f :: stack)
    (hevent : event = .answer result) (hresult : monotonicNow result = .error e) :
  Reopened w'.ledger f.selection
  := by
  have hengaged := hw.engaged
  rw [hstack] at hengaged
  cases h with
  | settles hstack' =>
      rw [hstack] at hstack'
      cases hstack'
      cases hevent
      exact (ran_settleCompletion b _ hw.balanced hengaged).2 e hresult
  | selects hstack' | aborts hstack' | samples hstack' =>
      rw [hstack] at hstack'
      cases hstack'
  | fails | finds | adds | ignores | admits | refuses | queues => cases hevent

theorem step_done (h : Reopened w.ledger d) :
  ∃ w', step b w (.done d) = some (w', .reads)
  := by
  rw [step, if_pos h.counted, h.opened]
  exact ⟨_, rfl⟩

/-- The state of an endpoint is kept, or its domain is evicted, or the endpoint is not in the
snapshot of a selection. -/
theorem Stepped.kept (h : Stepped b w event w' reply)
    (htended : Tended w.directory w.holdings domainOf) {domain endpoint : JsString} {state : ℕ}
    (hkeeps : w.directory.Keeps domain endpoint state) :
  w'.directory.Keeps domain endpoint state ∨
    ∃ f stack e d, w.stack = .selecting f :: stack ∧ reply = .selected e d ∧
      (f.domain ≠ domain ∧ 1024 ≤ (w.directory.domains.delete f.domain).size ∧
          w'.directory.domains.get? domain = none ∨
        f.domain = domain ∧ endpoint ∉ f.endpoints.map endpointIdentity)
  := by
  cases h with
  | fails | finds | ignores | admits | samples | settles | queues | refuses => exact .inl hkeeps
  | adds _ hnone => exact .inl (htended.keeps_fresh hnone hkeeps)
  | aborts => exact .inl (keeps_abort hkeeps)
  | @selects f stack _ _ _ selected hstack =>
      rw [holdings_selecting hstack] at htended
      by_cases hdomain : f.domain = domain
      · by_cases hmem : endpoint ∈ f.endpoints.map endpointIdentity
        · subst hdomain
          have hselected := selected_selectedP2CState w.ledger (w.directory.endpoints f.state)
            (f.first :: f.rest) selected
          exact .inl (htended.keeps_finish (hselected.keeps endpoint state hmem) hkeeps)
        · exact .inr ⟨f, stack, _, _, hstack, rfl, .inr ⟨hdomain, hmem⟩⟩
      · apply (htended.keeps_finish_of_ne (Ne.symm hdomain) hkeeps).imp_right
        rintro ⟨hnone, hfull⟩
        exact ⟨f, stack, _, _, hstack, rfl, .inl ⟨hdomain, hfull, hnone⟩⟩

/-- A move keeps the laws when the directory is in order. -/
theorem Move.lawful {m : Move ε urls} (hstep : step b m.before m.event = some (m.after, m.reply))
    (hsound : Sound m.before) (htended : Tended m.before.directory m.before.holdings domainOf) :
  m.Lawful b
  := by
  have hstepped := stepped hstep
  have hadvances := hstepped.advances hsound
  constructor
  case limited =>
    intro e d hreply
    obtain ⟨f, stack, _, _, hstack, _, _, _, _, hdirectory⟩ := hstepped.selected hreply
    rw [holdings_selecting hstack] at htended
    rw [hdirectory]
    exact htended.size_finish _
  case available =>
    intro e d hreply
    obtain ⟨f, stack, result, now, hstack, hevent, hreading, hmem, havailable, _⟩ :=
      hstepped.selected hreply
    exact ⟨f, stack, result, now, hstack, hevent, hreading, hmem, havailable⟩
  case stays => exact hadvances.stays
  case unchanged => exact hadvances.books
  case retried =>
    intro f stack result e hstack hevent hresult
    have hreopened := hstepped.retried hsound hstack hevent hresult
    exact ⟨hreopened.ineffective, step_done hreopened⟩
  case kept =>
    intro domain endpoint state hkeeps hevicts homits
    obtain hkept | ⟨f, stack, e, d, hstack, hreply, hlost⟩ := hstepped.kept htended hkeeps
    · exact hkept
    · have hselects : m.Selects f := ⟨⟨stack, hstack⟩, e, d, hreply⟩
      obtain ⟨hne, hfull, hnone⟩ | ⟨hdomain, hnot⟩ := hlost
      · exact absurd ⟨f, hselects, hne, hfull, hnone⟩ hevicts
      · exact absurd ⟨f, hselects, hdomain, hnot⟩ homits

/-- What holds after moves. -/
structure Kept (b : P2CSelector) (w : World ε urls) (moves : List (Move ε urls))
    (w' : World ε urls) : Prop where
  /-- The counter of an endpoint state is the number of the selections that count in it and whose
  callbacks have not taken effect. -/
  inFlight : ∀ s, (w'.ledger.states s).inFlight = (w'.ledger.pending s).card
  nonnegative : ∀ s, 0 ≤ (w'.ledger.states s).inFlight
  /-- Callbacks take effect once. -/
  once : w'.ledger.effects.Nodup
  lawful : ∀ m ∈ moves, m.Lawful b
  /-- The state of an endpoint is kept while its domain is not evicted, and the endpoint is in the
  snapshots of the domain. -/
  kept : ∀ domain endpoint state, w.directory.Keeps domain endpoint state →
    (∀ m ∈ moves, ¬ m.Evicts domain ∧ ¬ m.Omits domain endpoint) →
    w'.directory.Keeps domain endpoint state

/-- What holds after the moves of a run. -/
theorem Runs.kept {moves : List (Move ε urls)} (hruns : Runs b w moves w')
    (horderly : ∀ m ∈ moves, m.Orderly) (hsound : Sound w)
    (htended : Tended w.directory w.holdings domainOf) :
  Sound w' ∧ (∃ domainOf', Tended w'.directory w'.holdings domainOf') ∧ Kept b w moves w'
  := by
  induction hruns generalizing domainOf with
  | nil w =>
      refine ⟨hsound, ⟨_, htended⟩, ?_⟩
      constructor
      case inFlight => exact hsound.balanced.inFlight
      case nonnegative =>
        intro s
        rw [hsound.balanced.inFlight s]
        exact Nat.cast_nonneg _
      case once => exact hsound.balanced.once
      case lawful => exact fun m hm => absurd hm List.not_mem_nil
      case kept => exact fun _ _ _ hkeeps _ => hkeeps
  | @cons m moves w hstep _ ih =>
      have hstepped := stepped hstep
      obtain ⟨_, hnext⟩ := hstepped.tended (horderly m List.mem_cons_self) htended
      obtain ⟨hsound', htended', hkept⟩ := ih (fun m' hm' => horderly m' (List.mem_cons_of_mem _ hm'))
        (hstepped.sound hsound) hnext
      have hlawful := m.lawful hstep hsound htended
      refine ⟨hsound', htended', ?_⟩
      constructor
      case inFlight => exact hkept.inFlight
      case nonnegative => exact hkept.nonnegative
      case once => exact hkept.once
      case lawful =>
        intro m' hm'
        obtain rfl | hm' := List.mem_cons.mp hm'
        · exact hlawful
        · exact hkept.lawful m' hm'
      case kept =>
        intro domain endpoint state hkeeps hmoves
        obtain ⟨hevicts, homits⟩ := hmoves m List.mem_cons_self
        exact hkept.kept domain endpoint state
          (hlawful.kept domain endpoint state hkeeps hevicts homits)
          (fun m' hm' => hmoves m' (List.mem_cons_of_mem _ hm'))

/-- The books of a selector are kept in every run whose selections are orderly. -/
theorem p2cSelector_kept {earlier moves : List (Move ε urls)} {w w' : World ε urls}
    (hearlier : Runs b newWorld earlier w) (hmoves : Runs b w moves w')
    (horderly : ∀ m ∈ earlier ++ moves, m.Orderly) :
  Kept b w moves w'
  := by
  obtain ⟨hsound, ⟨_, htended⟩, _⟩ := hearlier.kept
    (fun m hm => horderly m (List.mem_append_left _ hm)) sound_newWorld tended_newDirectory
  exact (hmoves.kept (fun m hm => horderly m (List.mem_append_right _ hm)) hsound htended).2.2

/-! ### Selections in callbacks -/

/-- Numbers that are not rounded. -/
def exactArithmetic : Arithmetic := ⟨fun q n => q * n, fun q n => some (q + n)⟩

/-- A selector with the settings that are the defaults. -/
def defaultSelector : P2CSelector := ⟨exactArithmetic, DefaultFailureThreshold, DefaultCooldownMs⟩

/-- The domain of a service with one endpoint. -/
def domainOfAlone (n : ℕ) : JsString := selectionDomain [alone n]

theorem domainOfAlone_injective :
  Function.Injective domainOfAlone
  := by
  intro m n h
  rw [domainOfAlone, domainOfAlone, selectionDomain_eq, selectionDomain_eq] at h
  have htuple : ({(alone m).tuple} : Finset ServiceTuple) = {(alone n).tuple} :=
    domainText_injective h
  have hname := congrArg (fun t => (ofLex t).1) (Finset.singleton_injective htuple)
  exact JsString.ofNat_injective hname

/-- The world in which a service with one endpoint is being selected. -/
def selectingAlone (w : World Unit anyUrls) (n : ℕ) : World Unit anyUrls :=
  { w with
    directory := w.directory.add (domainOfAlone n)
    stack := .selecting ⟨⟨domainOfAlone n, true, w.directory.domainCount⟩, ⟨alone n, endpointOne⟩,
      [], .clock⟩ :: w.stack }

variable {n : ℕ}

theorem step_selectAlone (b : P2CSelector) {w : World Unit anyUrls}
    (h : w.directory.domains.get? (domainOfAlone n) = none) :
  step b w (.select (soleCall (alone n))) = some (selectingAlone w n, .reads)
  := by
  have hendpoints : (alone n).endpoints = [endpointOne] := rfl
  have hnone : w.directory.domains.get? (selectionDomain [alone n]) = none := h
  rw [step, beginSelect, candidates_sole hendpoints]
  dsimp only
  rw [hnone]
  rfl

/-- The only endpoint is selected, whatever the clock shows. -/
theorem p2cEndpoint_alone (b : P2CSelector) (l : Ledger ε) (states : JsMap JsString ℕ)
    (e : ServiceEndpoint urls) (now : ℚ) :
  p2cEndpoint b l states e [] now none = some e
  := by
  by_cases hle : endpointCooldown l states e ≤ now
  · rw [p2cEndpoint, eligibleP2CEndpoints, List.filter_cons, if_pos (decide_eq_true hle)]
    rfl
  · rw [p2cEndpoint, eligibleP2CEndpoints, List.filter_cons,
      if_neg fun h => hle (of_decide_eq_true h)]
    rfl

/-- The clock shows zero. -/
def zero : Event Unit anyUrls := .answer (.number (.ofNat 0))

/-- A service is selected: its domain is added, and the oldest one is evicted if there is no
place. -/
theorem step_answerAlone (b : P2CSelector) {w : World Unit anyUrls}
    (h : w.directory.domains.get? (domainOfAlone n) = none) :
  ∃ w' e d, step b (selectingAlone w n) zero = some (w', .selected e d) ∧ w'.stack = w.stack ∧
    w'.directory.domains.size =
      (if maximumSelectionDomains ≤ w.directory.domains.size then
        w.directory.domains.size - 1 + 1 else w.directory.domains.size + 1) ∧
    ∀ domain, domain ≠ domainOfAlone n → w.directory.domains.get? domain = none →
      w'.directory.domains.get? domain = none
  := by
  let holding : Holding := ⟨domainOfAlone n, true, w.directory.domainCount⟩
  have hclock : monotonicNow (.number (.ofNat 0) : SourceResult Unit) = .ok 0 := rfl
  have hstack : (selectingAlone w n).stack =
      .selecting ⟨holding, ⟨alone n, endpointOne⟩, [], .clock⟩ :: w.stack := rfl
  have hstep : ∃ ledger states d, step b (selectingAlone w n) zero =
      some (⟨ledger, (w.directory.add (domainOfAlone n)).finish holding states, w.stack⟩,
        .selected ⟨alone n, endpointOne⟩ d) := by
    rw [zero, step, hstack]
    dsimp only
    rw [answerSelect]
    dsimp only
    rw [hclock]
    dsimp only
    rw [proceedSelect, p2cEndpoint_alone]
    exact ⟨_, _, _, rfl⟩
  obtain ⟨ledger, states, d, hstep⟩ := hstep
  refine ⟨_, _, d, hstep, rfl, ?_, ?_⟩
  · have hdelete : ((w.directory.add (domainOfAlone n)).domains.delete (domainOfAlone n)).size =
        w.directory.domains.size := by
      rw [Directory.add, JsMap.delete_set_of_get? _ h]
    rw [Directory.finish, JsMap.size_remember, hdelete]
  · intro domain hne hnone
    rw [Option.eq_none_iff_forall_ne_some]
    intro state hstate
    obtain ⟨hdomain, _⟩ | hstate := get?_finish hstate
    · exact hne hdomain
    · rw [get?_add, if_neg hne, hnone] at hstate
      cases hstate

theorem Runs.append {w w' w'' : World ε urls} {moves moves' : List (Move ε urls)}
    (h : Runs b w moves w') (h' : Runs b w' moves' w'') :
  Runs b w (moves ++ moves') w''
  := by
  induction h with
  | nil => exact h'
  | cons hstep _ ih => exact .cons hstep (ih h')

/-- A service is selected in two moves. -/
theorem runs_alone {w w' : World Unit anyUrls} {e : ServiceEndpoint anyUrls}
    (h : w.directory.domains.get? (domainOfAlone n) = none)
    (hstep : step b (selectingAlone w n) zero = some (w', .selected e d)) :
  Runs b w
    [⟨w, .select (soleCall (alone n)), selectingAlone w n, .reads⟩,
      ⟨selectingAlone w n, zero, w', .selected e d⟩] w'
  := Runs.cons (m := ⟨w, .select (soleCall (alone n)), selectingAlone w n, .reads⟩)
    (step_selectAlone b h)
    (Runs.cons (m := ⟨selectingAlone w n, zero, w', .selected e d⟩) hstep (.nil w'))

/-- The books are kept when one service is selected. -/
theorem p2cSelector_kept_alone :
  ∃ moves w, Runs defaultSelector (newWorld : World Unit anyUrls) moves w ∧ moves.length = 2 ∧
    Kept defaultSelector newWorld moves w
  := by
  have hnone : (newWorld : World Unit anyUrls).directory.domains.get? (domainOfAlone 0) = none :=
    rfl
  obtain ⟨w, e, d, hstep, _⟩ := step_answerAlone defaultSelector hnone
  have hruns := runs_alone hnone hstep
  refine ⟨_, w, hruns, rfl, p2cSelector_kept (.nil _) hruns ?_⟩
  intro m hm
  rw [List.nil_append] at hm
  obtain rfl | hm := List.mem_cons.mp hm
  · exact fun _ _ _ _ _ => ⟨Nat.zero_le _, fun _ h => absurd h List.not_mem_nil⟩
  · rw [List.mem_singleton.mp hm]
    rintro _ _ ⟨⟩

/-- As many services are selected one after the other as there is place for. -/
theorem runs_services (b : P2CSelector) (hn : n ≤ maximumSelectionDomains) :
  ∃ moves w, Runs b (newWorld : World Unit anyUrls) moves w ∧ w.stack = [] ∧ w.directory.domains.size = n ∧
    ∀ j, n ≤ j → w.directory.domains.get? (domainOfAlone j) = none
  := by
  induction n with
  | zero => exact ⟨[], newWorld, .nil _, rfl, rfl, fun _ _ => rfl⟩
  | succ n ih =>
      obtain ⟨moves, w, hruns, hstack, hsize, hnone⟩ := ih (Nat.le_of_succ_le hn)
      obtain ⟨w', e, d, hstep, hstack', hsize', hnone'⟩ := step_answerAlone b (hnone n le_rfl)
      refine ⟨_, w', hruns.append (runs_alone (hnone n le_rfl) hstep), hstack'.trans hstack, ?_, ?_⟩
      · rw [hsize', hsize, if_neg (by omega)]
      · intro j hj
        apply hnone' _ _ (hnone j (by omega))
        exact domainOfAlone_injective.ne (by omega)

/-- A selection in the callback of another one leaves more domains than there is place for, when
both have added their domains. -/
theorem p2cSelector_exceeds :
  ∃ moves w, Runs defaultSelector (newWorld : World Unit anyUrls) moves w ∧
    ∃ m ∈ moves, (∃ e d, m.reply = .selected e d) ∧ m.after.directory.domains.size = 1025
  := by
  obtain ⟨moves, w, hruns, _, hsize, hnone⟩ := runs_services defaultSelector le_rfl
  -- the first selection adds its domain, and reads the clock
  have houter : w.directory.domains.get? (domainOfAlone 1024) = none := hnone 1024 le_rfl
  have hbegun : Runs defaultSelector w
      [⟨w, .select (soleCall (alone 1024)), selectingAlone w 1024, .reads⟩]
      (selectingAlone w 1024) :=
    Runs.cons (m := ⟨w, .select (soleCall (alone 1024)), selectingAlone w 1024, .reads⟩)
      (step_selectAlone _ houter) (.nil _)
  have hfull : (selectingAlone w 1024).directory.domains.size = 1025 :=
    (JsMap.size_set_of_not houter _).trans (congrArg (· + 1) hsize)
  -- while it reads the clock, the second one adds its domain, and ends
  have hinner : (selectingAlone w 1024).directory.domains.get? (domainOfAlone 1025) = none := by
    have hne : domainOfAlone 1025 ≠ domainOfAlone 1024 := domainOfAlone_injective.ne (by decide)
    rw [selectingAlone, get?_add, if_neg hne]
    exact hnone 1025 (by decide)
  obtain ⟨w', e, d, hstep, _, hsize', _⟩ := step_answerAlone defaultSelector hinner
  rw [hfull] at hsize'
  have hmany : w'.directory.domains.size = 1025 := hsize'.trans (if_pos (by decide))
  refine ⟨_, w', (hruns.append hbegun).append (runs_alone hinner hstep),
    ⟨selectingAlone (selectingAlone w 1024) 1025, zero, w', .selected e d⟩, ?_, ⟨e, d, rfl⟩, hmany⟩
  exact List.mem_append_right _ (List.mem_cons_of_mem _ (List.mem_singleton_self _))

end Registry.P2C
