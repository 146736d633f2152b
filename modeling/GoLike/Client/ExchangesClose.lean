import GoLike.Client.PoolOwned
import GoLike.Client.Exchanges

/-!
# Which exchanges close their owners

A step of a client with its bodies is a step of its pool. The exchanges that end before a body is
handed on give their owner back as reusable only when they are complete; a body gives it back as
reusable however it ends.
-/

open Transport

namespace Client

variable {A : Type} [DecidableEq A] {maxIdle idleTtlMs : ℕ} {numberValue : List UInt16 → JsNumber}

/-! ### Owners stay closed -/

/-- An owner that is being closed stays so. -/
def Pool.StaysClosed (p p' : Pool A) : Prop :=
  ∀ x ∈ p.admitted, (p.residents x).closing ≠ none →
    x ∈ p'.admitted ∧ (p'.residents x).closing ≠ none

namespace Pool

variable {p p' : Pool A} {client : Owner A}

omit [DecidableEq A] in
theorem StaysClosed.of_eq (hadmitted : p'.admitted = p.admitted)
    (hclosing : ∀ x, (p'.residents x).closing = none → (p.residents x).closing = none) :
  p.StaysClosed p'
  := by
  intro x hx hclosed
  rw [hadmitted]
  exact ⟨hx, fun hnone => hclosed (hclosing x hnone)⟩

omit [DecidableEq A] in
theorem StaysClosed.refl (p : Pool A) :
  p.StaysClosed p
  := by
  apply StaysClosed.of_eq rfl
  exact fun x hx => hx

omit [DecidableEq A] in
theorem Closes.staysClosed (h : p.Closes p') :
  p.StaysClosed p'
  := by
  apply StaysClosed.of_eq h.admitted
  exact fun x hx => (h.active x hx).1

theorem staysClosed_setResident (p : Pool A) (client : Owner A) {resident : Resident}
    {connections : List (Owner A)} (hclosing : resident.closing ≠ none) :
  p.StaysClosed { p.setResident client resident with connections := connections }
  := by
  refine StaysClosed.of_eq rfl (fun x hx => ?_)
  dsimp only at hx
  rw [residents_setResident] at hx
  split at hx
  · exact absurd hx hclosing
  · exact hx

theorem Sound.admitted_admitOwner (h : p.Sound) (address : A) :
  (p.admitOwner address).2.admitted = p.admitted ++ [(p.admitOwner address).1]
  := by
  have hdialed := h.dialed (h.fresh address) rfl
  have hcloses := hdialed.closeResident ⟨p.admitted.length, address⟩
  rw [Pool.admitOwner]
  dsimp only
  split
  · exact hcloses.admitted
  · rfl

theorem Sound.staysClosed_admitOwner (h : p.Sound) (address : A)
    (hclosed : p.closed = true → ∀ x ∈ p.admitted, (p.residents x).closing ≠ none) :
  p.StaysClosed (p.admitOwner address).2
  := by
  intro x hx hclosing
  have hne : x ≠ ⟨p.admitted.length, address⟩ := by
    rintro rfl
    exact h.fresh address hx
  cases hopen : p.closed with
  | true =>
      obtain ⟨-, -, -, hlends, hall⟩ := h.refuseOwner address hopen
      have hmem : x ∈ (p.admitOwner address).2.admitted := by
        rw [h.admitted_admitOwner]
        exact List.mem_append_left _ hx
      exact ⟨hmem, hall (hclosed hopen) x hmem⟩
  | false =>
      rw [Pool.admitOwner]
      dsimp only
      rw [if_neg (by rw [hopen]; exact Bool.false_ne_true)]
      dsimp only
      rw [Function.update_of_ne hne]
      exact ⟨List.mem_append_left _ hx, hclosing⟩

theorem Sound.staysClosed_begin (h : p.Sound) :
  p.StaysClosed p.beginTransportClose
  := by
  rw [Pool.beginTransportClose]
  split
  case isTrue => exact .refl p
  case isFalse =>
    have hsound : Pool.Sound { p with closed := true } := ⟨h.nodup, h.lists, h.listed, h.idle,
      h.active, h.connections, h.kept, h.number, h.calls⟩
    exact (hsound.closeAll p.connections).1.staysClosed

end Pool

namespace PooledClient

variable {c c' : PooledClient A} {i : ℕ} {a : Attempt A} {client : Owner A}

theorem Sound.staysClosed_release (h : c.Sound maxIdle) (hattempt : c.attempts i = some a)
    (hlent : a.stage.lent = some client) (reusable : Bool) :
  c.pool.StaysClosed (c.release maxIdle idleTtlMs i a client reusable).pool
  := by
  have hreleased : Pool.Released maxIdle c.pool
      (c.pool.release maxIdle idleTtlMs client reusable) client :=
    h.pool.release h.size (h.lends i a client hattempt hlent) reusable
  apply Pool.StaysClosed.of_eq hreleased.admitted hreleased.closing

/-- A step closes owners, and opens none. -/
theorem Sound.staysClosed (h : c.Sound maxIdle) (hstep : PoolStep maxIdle idleTtlMs c c') :
  c.pool.StaysClosed c'.pool
  := by
  cases hstep with
  | begins | fails | dialRejects => exact .refl _
  | @acquires i a hattempt hstage address =>
      rw [PooledClient.acquire]
      split
      · exact .refl _
      · split
        case h_1 client pool hborrow =>
          obtain ⟨-, -, hadmitted, hclosing⟩ := h.pool.borrow hborrow
          apply Pool.StaysClosed.of_eq hadmitted
          exact fun x hx => (hclosing x).symm.trans hx
        case h_2 => exact .refl _
  | dialResolves hattempt hstage => exact h.pool.staysClosed_admitOwner _ h.closed
  | fetchRejects hattempt hstage | decoded hattempt hstage =>
      exact h.staysClosed_release hattempt (by rw [hstage]; rfl) false
  | @responds i a client hattempt hstage reply =>
      have hlent : a.stage.lent = some client := by rw [hstage]; rfl
      rw [PooledClient.respond]
      split
      · exact .refl _
      · exact h.staysClosed_release hattempt hlent false
      · exact .refl _
      · exact .refl _
      · exact h.staysClosed_release hattempt hlent true
  | validated hattempt hstage valid =>
      exact h.staysClosed_release hattempt (by rw [hstage]; rfl) valid
  | bodyEnds hattempt hstage =>
      exact h.staysClosed_release hattempt (by rw [hstage]; rfl) true
  | timerFires client timer =>
      dsimp only
      rw [Pool.expireIdleOwner]
      split
      · exact .refl _
      · have htimer := h.pool.closes_setTimer client none
        exact (htimer.trans (htimer.sound.closeResident client)).staysClosed
  | closeCalled | closeSettles =>
      apply Pool.staysClosed_setResident
      exact Option.some_ne_none _
  | closes => exact h.pool.staysClosed_begin

end PooledClient

/-! ### Giving an owner back -/

namespace Pool

variable {p : Pool A} {client : Owner A}

/-- An owner that is not reusable, or cannot become idle, is closed. -/
theorem closing_release {reusable : Bool}
    (h : reusable = false ∨ p.closed = true ∨ maxIdle = 0 ∨ (p.residents client).closing ≠ none) :
  ((p.release maxIdle idleTtlMs client reusable).residents client).closing ≠ none
  := by
  rw [Pool.release, if_neg]
  · apply closing_closeResident
  · rintro ⟨hreusable, hopen, hkeeps, hnone⟩
    obtain hnot | hclosed | hzero | hclosing := h
    · rw [hnot] at hreusable
      cases hreusable
    · rw [hopen] at hclosed
      cases hclosed
    · rw [hzero] at hkeeps
      exact lt_irrefl 0 hkeeps
    · exact hclosing hnone

end Pool

/-! ### Steps -/

/-- The body of an attempt holds an owner. -/
def PooledClient.HeldBy (c : PooledClient A) (i : ℕ) (client : Owner A) : Prop :=
  ∃ a, c.attempts i = some a ∧ a.stage = .held client

namespace PooledClient

variable {c : PooledClient A} {i j : ℕ} {a : Attempt A} {client : Owner A}

omit [DecidableEq A] in
theorem heldBy_setAttempt (c : PooledClient A) (pool : Pool A) (i j : ℕ) (a : Attempt A)
    (client : Owner A) :
  ({ c with pool := pool }.setAttempt i a).HeldBy j client ↔
    (j = i ∧ a.stage = .held client) ∨ (j ≠ i ∧ c.HeldBy j client)
  := by
  rw [HeldBy, HeldBy, setAttempt]
  dsimp only
  by_cases hj : j = i
  · rw [hj, Function.update_self]
    simp
  · rw [Function.update_of_ne hj]
    simp [hj]

omit [DecidableEq A] in
/-- An attempt whose body holds nothing, before and after. -/
theorem heldBy_setAttempt_iff {pool : Pool A} (hbefore : ∀ x, ¬ c.HeldBy i x)
    (hafter : ∀ x, a.stage ≠ .held x) (j : ℕ) (client : Owner A) :
  ({ c with pool := pool }.setAttempt i a).HeldBy j client ↔ c.HeldBy j client
  := by
  rw [heldBy_setAttempt]
  constructor
  · rintro (⟨-, h⟩ | ⟨-, h⟩)
    · exact absurd h (hafter client)
    · exact h
  · intro h
    refine .inr ⟨?_, h⟩
    rintro rfl
    exact hbefore client h

omit [DecidableEq A] in
theorem not_heldBy (hattempt : c.attempts i = some a) (hstage : ∀ x, a.stage ≠ .held x)
    (x : Owner A) :
  ¬ c.HeldBy i x
  := by
  rintro ⟨b, hb, hx⟩
  rw [hattempt] at hb
  cases hb
  exact hstage x hx

end PooledClient

/-- What a step of a client is. -/
inductive Exchanges.Turn (maxIdle idleTtlMs : ℕ) (numberValue : List UInt16 → JsNumber)
    (s : Exchanges A) : ExchangeEvent A → Exchanges A → Prop where
  /-- The pool and the attempts go on, and no body is handed on. -/
  | moves {event : ExchangeEvent A} {client : PooledClient A}
      (hevent : ∀ i e, event ≠ .body i e)
      (hstep : PoolStep maxIdle idleTtlMs s.client client)
      (hheld : ∀ i x, client.HeldBy i x ↔ s.client.HeldBy i x) :
      Turn maxIdle idleTtlMs numberValue s event (s.withClient client)
  /-- An exchange ends without a body that is handed on. -/
  | ends {event : ExchangeEvent A} {i : ℕ} {a : Attempt A} {client : Owner A} {how : ExchangeEnd}
      {reusable : Bool} (hevent : ∀ i e, event ≠ .body i e)
      (hattempt : s.client.attempts i = some a) (hlent : a.stage.lent = some client)
      (hstage : ∀ x, a.stage ≠ .held x) (hhow : how ≠ .completed → reusable = false)
      (hstep : PoolStep maxIdle idleTtlMs s.client
        (s.client.release maxIdle idleTtlMs i a client reusable)) :
      Turn maxIdle idleTtlMs numberValue s event
        (s.release maxIdle idleTtlMs i a client how reusable)
  | admits {event : ExchangeEvent A} {i : ℕ} {a : Attempt A} {address : A}
      (hevent : ∀ i e, event ≠ .body i e)
      (hattempt : s.client.attempts i = some a) (hstage : a.stage = .dialing address) :
      Turn maxIdle idleTtlMs numberValue s event (s.admitDialed i a address)
  | holds {event : ExchangeEvent A} {i : ℕ} {a : Attempt A} {client : Owner A}
      {deliversEvents : Bool} (hevent : ∀ i e, event ≠ .body i e)
      (hattempt : s.client.attempts i = some a) (hstage : a.stage = .fetching client)
      (hstep : PoolStep maxIdle idleTtlMs s.client
        (s.client.setAttempt i { a with stage := .held client })) :
      Turn maxIdle idleTtlMs numberValue s event
        { s with
          client := s.client.setAttempt i { a with stage := .held client }
          bodies := Function.update s.bodies i (some (observeBody deliversEvents)) }
  | observes {i : ℕ} {e : BodyEvent} {b b' : ObservedBody} (hbody : s.bodies i = some b)
      (hstep : b.step numberValue heldOptions e = some b') :
      Turn maxIdle idleTtlMs numberValue s (.body i e) (s.observe maxIdle idleTtlMs i b b')

namespace Exchanges

variable {s s' : Exchanges A} {event : ExchangeEvent A}

variable {i : ℕ} {a : Attempt A}

theorem reached_eq_some {stage : AttemptStage A} :
  s.reached i stage = some a ↔ s.client.attempts i = some a ∧ a.stage = stage
  := by
  rw [reached, Option.filter_eq_some_iff]
  simp

/-- A step has one of these forms. -/
theorem turn_of_step (hstep : s.step maxIdle idleTtlMs numberValue event = some s') :
  s.Turn maxIdle idleTtlMs numberValue event s'
  := by
  cases event with
  | begins i streaming typed =>
      obtain ⟨hnew, ⟨⟩⟩ := Option.ite_none_right_eq_some.1 hstep
      apply Turn.moves (by simp) (.begins hnew streaming typed)
      apply PooledClient.heldBy_setAttempt_iff
      · rintro x ⟨a, ha, -⟩
        rw [hnew] at ha
        cases ha
      · rintro x ⟨⟩
  | fails i =>
      obtain ⟨a, ha, rfl⟩ := Option.map_eq_some_iff.1 hstep
      obtain ⟨hattempt, hstage⟩ := reached_eq_some.1 ha
      apply Turn.moves (by simp) (.fails hattempt hstage)
      apply PooledClient.heldBy_setAttempt_iff
      · exact PooledClient.not_heldBy hattempt (by simp [hstage])
      · rintro x ⟨⟩
  | acquires i address =>
      obtain ⟨a, ha, rfl⟩ := Option.map_eq_some_iff.1 hstep
      obtain ⟨hattempt, hstage⟩ := reached_eq_some.1 ha
      apply Turn.moves (by simp) (.acquires hattempt hstage address)
      have hbefore : ∀ x, ¬ s.client.HeldBy i x :=
        PooledClient.not_heldBy hattempt (by simp [hstage])
      rw [PooledClient.acquire]
      split
      · exact PooledClient.heldBy_setAttempt_iff hbefore (by rintro x ⟨⟩)
      · split
        · exact PooledClient.heldBy_setAttempt_iff hbefore (by rintro x ⟨⟩)
        · exact PooledClient.heldBy_setAttempt_iff hbefore (by rintro x ⟨⟩)
  | dialRejects i address =>
      obtain ⟨a, ha, rfl⟩ := Option.map_eq_some_iff.1 hstep
      obtain ⟨hattempt, hstage⟩ := reached_eq_some.1 ha
      apply Turn.moves (by simp) (.dialRejects hattempt hstage)
      apply PooledClient.heldBy_setAttempt_iff
      · exact PooledClient.not_heldBy hattempt (by simp [hstage])
      · rintro x ⟨⟩
  | dialResolves i address =>
      obtain ⟨a, ha, rfl⟩ := Option.map_eq_some_iff.1 hstep
      obtain ⟨hattempt, hstage⟩ := reached_eq_some.1 ha
      exact .admits (by simp) hattempt hstage
  | fetchRejects i client =>
      obtain ⟨a, ha, rfl⟩ := Option.map_eq_some_iff.1 hstep
      obtain ⟨hattempt, hstage⟩ := reached_eq_some.1 ha
      exact .ends (by simp) hattempt (by rw [hstage]; rfl) (by simp [hstage]) (fun _ => rfl)
        (.fetchRejects hattempt hstage)
  | responds i client reply deliversEvents =>
      obtain ⟨a, ha, rfl⟩ := Option.map_eq_some_iff.1 hstep
      obtain ⟨hattempt, hstage⟩ := reached_eq_some.1 ha
      have hpool : PoolStep maxIdle idleTtlMs s.client
          (s.client.respond maxIdle idleTtlMs i a client reply) := .responds hattempt hstage reply
      have hlent : a.stage.lent = some client := by rw [hstage]; rfl
      have hbefore : ∀ x, a.stage ≠ .held x := by simp [hstage]
      rw [PooledClient.respond] at hpool
      rw [respond]
      cases hjudge : a.judge reply with
      | decode | validate =>
        rw [hjudge] at hpool
        apply Turn.moves (by simp) hpool
        exact PooledClient.heldBy_setAttempt_iff (PooledClient.not_heldBy hattempt hbefore)
          (by rintro x ⟨⟩)
      | throw =>
        rw [hjudge] at hpool
        exact .ends (by simp) hattempt hlent hbefore (fun _ => rfl) hpool
      | hold =>
        rw [hjudge] at hpool
        exact .holds (by simp) hattempt hstage hpool
      | complete =>
        rw [hjudge] at hpool
        exact .ends (by simp) hattempt hlent hbefore (fun h => absurd rfl h) hpool
  | decoded i client =>
      obtain ⟨a, ha, rfl⟩ := Option.map_eq_some_iff.1 hstep
      obtain ⟨hattempt, hstage⟩ := reached_eq_some.1 ha
      exact .ends (by simp) hattempt (by rw [hstage]; rfl) (by simp [hstage]) (fun _ => rfl)
        (.decoded hattempt hstage)
  | validated i client valid =>
      obtain ⟨a, ha, rfl⟩ := Option.map_eq_some_iff.1 hstep
      obtain ⟨hattempt, hstage⟩ := reached_eq_some.1 ha
      apply Turn.ends (by simp) hattempt (by rw [hstage]; rfl) (by simp [hstage])
      · intro hhow
        cases valid with
        | false => rfl
        | true => exact absurd rfl hhow
      · exact .validated hattempt hstage valid
  | body i e =>
      rw [step] at hstep
      cases hbody : s.bodies i with
      | none =>
          rw [hbody] at hstep
          cases hstep
      | some b =>
          rw [hbody] at hstep
          obtain ⟨b', hb', rfl⟩ := Option.map_eq_some_iff.1 hstep
          exact .observes hbody hb'
  | timerFires client timer =>
      cases hstep
      exact .moves (by simp) (.timerFires client timer) (fun _ _ => Iff.rfl)
  | closeCalled client =>
      obtain ⟨hclosing, ⟨⟩⟩ := Option.ite_none_right_eq_some.1 hstep
      exact .moves (by simp) (.closeCalled hclosing) (fun _ _ => Iff.rfl)
  | closeSettles client =>
      obtain ⟨hclosing, ⟨⟩⟩ := Option.ite_none_right_eq_some.1 hstep
      exact .moves (by simp) (.closeSettles hclosing) (fun _ _ => Iff.rfl)
  | closes =>
      cases hstep
      exact .moves (by simp) .closes (fun _ _ => Iff.rfl)

/-! ### What holds of a client with its bodies -/

/-- A body holds an owner exactly while its end has not been reported. -/
structure Sound (maxIdle : ℕ) (s : Exchanges A) : Prop where
  client : s.client.Sound maxIdle
  held : ∀ i x, s.client.HeldBy i x → ∃ b, s.bodies i = some b ∧ b.reported = none
  body : ∀ i b, s.bodies i = some b → b.reported = none → b.Quiet ∧ ∃ x, s.client.HeldBy i x

omit [DecidableEq A] in
/-- The bodies stay, and so does what they hold. -/
theorem Sound.keep (h : s.Sound maxIdle) {client : PooledClient A} (hclient : client.Sound maxIdle)
    (hheld : ∀ i x, client.HeldBy i x ↔ s.client.HeldBy i x)
    {ended : List (Owner A × ExchangeEnd)} :
  Sound maxIdle { s with client := client, ended := ended }
  := by
  constructor
  case client => exact hclient
  case held => exact fun i x hx => h.held i x ((hheld i x).1 hx)
  case body =>
    intro i b hb hopen
    obtain ⟨hquiet, x, hx⟩ := h.body i b hb hopen
    exact ⟨hquiet, x, (hheld i x).2 hx⟩

variable {client : Owner A} {b b' : ObservedBody}

/-- A body that reports gives its owner back. -/
theorem observe_of_report {how : BodyEnd} (hattempt : s.client.attempts i = some a)
    (hstage : a.stage = .held client) (hopen : b.reported = none)
    (hreport : b'.reported = some how) :
  s.observe maxIdle idleTtlMs i b b' =
    { s.release maxIdle idleTtlMs i a client (.ofBody how) true with
      bodies := Function.update s.bodies i (some b') }
  := by
  unfold observe
  rw [hopen, hreport]
  dsimp only
  rw [releaseHeld]
  dsimp only
  rw [hattempt]
  dsimp only
  rw [hstage]
  rfl

theorem observe_of_none (hopen : b'.reported = none) :
  s.observe maxIdle idleTtlMs i b b' = { s with bodies := Function.update s.bodies i (some b') }
  := by
  unfold observe
  rw [hopen]
  cases b.reported <;> rfl

theorem observe_of_some {how : BodyEnd} (hreported : b.reported = some how) :
  s.observe maxIdle idleTtlMs i b b' = { s with bodies := Function.update s.bodies i (some b') }
  := by
  unfold observe
  rw [hreported]

omit [DecidableEq A] in
/-- The body of one attempt changes. -/
theorem Sound.update (h : s.Sound maxIdle) {client : PooledClient A}
    (hclient : client.Sound maxIdle)
    (hothers : ∀ j x, j ≠ i → (client.HeldBy j x ↔ s.client.HeldBy j x))
    (hheld : ∀ x, client.HeldBy i x → b'.reported = none)
    (hopen : b'.reported = none → b'.Quiet ∧ ∃ x, client.HeldBy i x)
    {ended : List (Owner A × ExchangeEnd)} :
  Sound maxIdle ⟨client, Function.update s.bodies i (some b'), ended⟩
  := by
  constructor
  case client => exact hclient
  case held =>
    intro j x hx
    dsimp only at hx ⊢
    by_cases hj : j = i
    · rw [hj] at hx ⊢
      rw [Function.update_self]
      exact ⟨b', rfl, hheld x hx⟩
    · rw [Function.update_of_ne hj]
      exact h.held j x ((hothers j x hj).1 hx)
  case body =>
    intro j c hc hnone
    dsimp only at hc ⊢
    by_cases hj : j = i
    · rw [hj, Function.update_self] at hc
      cases hc
      rw [hj]
      exact hopen hnone
    · rw [Function.update_of_ne hj] at hc
      obtain ⟨hquiet, x, hx⟩ := h.body j c hc hnone
      exact ⟨hquiet, x, (hothers j x hj).2 hx⟩

/-- A step keeps what holds. -/
theorem Sound.turn (h : s.Sound maxIdle)
    (hturn : s.Turn maxIdle idleTtlMs numberValue event s') :
  s'.Sound maxIdle
  := by
  cases hturn with
  | moves _ hstep hheld => exact h.keep (h.client.step hstep) hheld
  | ends _ hattempt hlent hstage _ hstep =>
      apply h.keep (h.client.step hstep)
      exact PooledClient.heldBy_setAttempt_iff (PooledClient.not_heldBy hattempt hstage)
        (by rintro x ⟨⟩)
  | @admits _ i a address _ hattempt hstage =>
      have hstep : PoolStep maxIdle idleTtlMs s.client (s.client.admitDialed i a address) :=
        .dialResolves hattempt hstage
      apply h.keep (h.client.step hstep)
      apply PooledClient.heldBy_setAttempt_iff
      · exact PooledClient.not_heldBy hattempt (by simp [hstage])
      · intro x
        dsimp only
        split
        · rintro ⟨⟩
        · rintro ⟨⟩
  | @holds _ i a client deliversEvents _ hattempt hstage hstep =>
      have hheld : ∀ j x, (s.client.setAttempt i { a with stage := .held client }).HeldBy j x ↔
          (j = i ∧ AttemptStage.held client = .held x) ∨ (j ≠ i ∧ s.client.HeldBy j x) :=
        fun j x => PooledClient.heldBy_setAttempt s.client s.client.pool i j _ x
      apply h.update (h.client.step hstep)
      · intro j x hj
        rw [hheld]
        simp [hj]
      · exact fun _ _ => rfl
      · have hnew := (hheld i client).2 (.inl ⟨rfl, rfl⟩)
        exact fun _ => ⟨ObservedBody.quiet_observeBody deliversEvents, client, hnew⟩
  | @observes i e b b' hbody hstep =>
      cases hopen : b.reported with
      | some how =>
          have hreported := ObservedBody.reported_step hopen hstep
          rw [observe_of_some hopen]
          apply h.update h.client (fun _ _ _ => Iff.rfl)
          · intro x hx
            obtain ⟨c, hc, hnone⟩ := h.held i x hx
            rw [hbody] at hc
            cases hc
            rw [hopen] at hnone
            cases hnone
          · intro hnone
            rw [hreported] at hnone
            cases hnone
      | none =>
          obtain ⟨hquiet, x, hx⟩ := h.body i b hbody hopen
          obtain ⟨hnone, hquiet', -⟩ | ⟨how, hreport, -⟩ :=
            ObservedBody.reported_step_of_none hquiet hopen hstep
          · rw [observe_of_none hnone]
            exact h.update h.client (fun _ _ _ => Iff.rfl) (fun _ _ => hnone)
              (fun _ => ⟨hquiet', x, hx⟩)
          · obtain ⟨a, hattempt, hstage⟩ := hx
            rw [observe_of_report hattempt hstage hopen hreport]
            have hends : PoolStep maxIdle idleTtlMs s.client
                (s.client.release maxIdle idleTtlMs i a x true) := .bodyEnds hattempt hstage
            have hheld : ∀ j y, (s.client.release maxIdle idleTtlMs i a x true).HeldBy j y ↔
                (j = i ∧ AttemptStage.ended = .held y) ∨ (j ≠ i ∧ s.client.HeldBy j y) :=
              fun j y => PooledClient.heldBy_setAttempt s.client _ i j _ y
            apply h.update (h.client.step hends)
            · intro j y hj
              rw [hheld]
              simp [hj]
            · intro y hy
              obtain ⟨-, ⟨⟩⟩ | ⟨hne, -⟩ := (hheld i y).1 hy
              exact absurd rfl hne
            · intro hnone
              rw [hreport] at hnone
              cases hnone

/-- A run keeps what holds. -/
theorem Sound.run {events : List (ExchangeEvent A)} (h : s.Sound maxIdle)
    (hrun : s.run maxIdle idleTtlMs numberValue events = some s') :
  s'.Sound maxIdle
  := by
  induction events generalizing s with
  | nil =>
      cases hrun
      exact h
  | cons event events ih =>
      obtain ⟨t, ht, hrest⟩ := Option.bind_eq_some_iff.1 hrun
      exact ih (h.turn (turn_of_step ht)) hrest

/-! ### Exchanges that are not completed -/

/-- The owners of the exchanges that ended otherwise than by completion are closed. -/
def Closed (s : Exchanges A) : Prop :=
  ∀ client how, (client, how) ∈ s.ended → how ≠ .completed →
    client ∈ s.client.pool.admitted ∧ (s.client.pool.residents client).closing ≠ none

omit [DecidableEq A] in
/-- No exchange has ended, and the owners that are closed stay so. -/
theorem Closed.keep (h : s.Closed) (hstays : s.client.pool.StaysClosed s'.client.pool)
    (hended : s'.ended = s.ended) :
  s'.Closed
  := by
  intro client how hmem hhow
  rw [hended] at hmem
  obtain ⟨hadmitted, hclosing⟩ := h client how hmem hhow
  exact hstays client hadmitted hclosing

omit [DecidableEq A] in
/-- One exchange has ended. -/
theorem Closed.append (h : s.Closed) (hstays : s.client.pool.StaysClosed s'.client.pool)
    {how : ExchangeEnd} (hended : s'.ended = s.ended ++ [(client, how)])
    (hlast : how ≠ .completed → client ∈ s'.client.pool.admitted ∧ (s'.client.pool.residents client).closing ≠ none) :
  s'.Closed
  := by
  intro x how' hmem hhow
  rw [hended] at hmem
  obtain hmem | hmem := List.mem_append.1 hmem
  · obtain ⟨hadmitted, hclosing⟩ := h x how' hmem hhow
    exact hstays x hadmitted hclosing
  · cases List.mem_singleton.1 hmem
    exact hlast hhow

/-- The exchange of an attempt that lends an owner has ended. -/
theorem Closed.release (hclosed : s.Closed) (h : s.Sound maxIdle)
    (hattempt : s.client.attempts i = some a) (hlent : a.stage.lent = some client)
    {how : ExchangeEnd} {reusable : Bool}
    (hcloses : how ≠ .completed → reusable = false ∨ s.Discards maxIdle client)
    {bodies : ℕ → Option ObservedBody} :
  Closed { s.release maxIdle idleTtlMs i a client how reusable with bodies := bodies }
  := by
  have hlends := h.client.lends i a client hattempt hlent
  have hreleased : Pool.Released maxIdle s.client.pool
      (s.client.pool.release maxIdle idleTtlMs client reusable) client :=
    h.client.pool.release h.client.size hlends reusable
  have hstays : s.client.pool.StaysClosed
      (s.client.release maxIdle idleTtlMs i a client reusable).pool :=
    h.client.staysClosed_release hattempt hlent reusable
  apply hclosed.append hstays rfl
  intro hhow
  constructor
  · exact hreleased.admitted ▸ hlends.admitted
  · exact Pool.closing_release (hcloses hhow)

/-- A step that spares the idle set keeps the owners closed. -/
theorem Closed.turn (hclosed : s.Closed) (h : s.Sound maxIdle) (hspares : s.Spares maxIdle event)
    (hturn : s.Turn maxIdle idleTtlMs numberValue event s') :
  s'.Closed
  := by
  cases hturn with
  | moves _ hstep hheld | holds _ hattempt hstage hstep =>
      exact hclosed.keep (h.client.staysClosed hstep) rfl
  | ends _ hattempt hlent hstage hhow hstep =>
      exact hclosed.release h hattempt hlent (fun hne => .inl (hhow hne))
  | @admits _ i a address _ hattempt hstage =>
      have hstep : PoolStep maxIdle idleTtlMs s.client (s.client.admitDialed i a address) :=
        .dialResolves hattempt hstage
      have hstays := h.client.staysClosed hstep
      cases hopen : s.client.pool.closed with
      | false =>
          apply hclosed.keep hstays
          rw [admitDialed]
          dsimp only
          rw [hopen]
          rfl
      | true =>
          have hmem : (s.client.pool.admitOwner address).1 ∈
              (s.client.pool.admitOwner address).2.admitted := by
            rw [h.client.pool.admitted_admitOwner]
            exact List.mem_append_right _ List.mem_cons_self
          obtain ⟨-, -, -, -, hall⟩ := h.client.pool.refuseOwner address hopen
          apply hclosed.append hstays
          · rw [admitDialed]
            dsimp only
            rw [hopen, if_pos rfl]
          · exact fun _ => ⟨hmem, hall (h.client.closed hopen) _ hmem⟩
  | @observes i e b b' hbody hstep =>
      cases hopen : b.reported with
      | some how =>
          rw [observe_of_some hopen]
          exact hclosed.keep (.refl _) rfl
      | none =>
          obtain ⟨hquiet, x, a, hattempt, hstage⟩ := h.body i b hbody hopen
          obtain ⟨hnone, -, -⟩ | ⟨how, hreport, hcomplete⟩ :=
            ObservedBody.reported_step_of_none hquiet hopen hstep
          · rw [observe_of_none hnone]
            exact hclosed.keep (.refl _) rfl
          · rw [observe_of_report hattempt hstage hopen hreport]
            apply hclosed.release h hattempt (by rw [hstage]; rfl)
            intro hhow
            have hinterrupts : e.interrupts = true := by
              cases hvalue : e.interrupts with
              | true => rfl
              | false =>
                  rw [hvalue] at hcomplete
                  cases how with
                  | finished | terminal => exact absurd rfl hhow
                  | failed | canceled => cases hcomplete
            exact .inr (hspares i e a x rfl hinterrupts hattempt hstage)

end Exchanges

/-! ### Runs -/

namespace Exchanges

variable {s s' t : Exchanges A} {event : ExchangeEvent A}
  {before after events : List (ExchangeEvent A)}

theorem run_append :
  s.run maxIdle idleTtlMs numberValue (before ++ after) =
    (s.run maxIdle idleTtlMs numberValue before).bind fun t =>
      t.run maxIdle idleTtlMs numberValue after
  := by
  exact List.foldlM_append

theorem run_cons :
  s.run maxIdle idleTtlMs numberValue (event :: events) =
    (s.step maxIdle idleTtlMs numberValue event).bind fun t =>
      t.run maxIdle idleTtlMs numberValue events
  := by
  exact List.foldlM_cons

/-- A run whose steps spare the idle set keeps the owners closed. -/
theorem Closed.run (hclosed : s.Closed) (h : s.Sound maxIdle)
    (hspares : ∀ before event after t, events = before ++ event :: after →
      s.run maxIdle idleTtlMs numberValue before = some t → t.Spares maxIdle event)
    (hrun : s.run maxIdle idleTtlMs numberValue events = some s') :
  s'.Closed
  := by
  induction events generalizing s with
  | nil =>
      cases hrun
      exact hclosed
  | cons event events ih =>
      rw [run_cons] at hrun
      obtain ⟨t, ht, hrest⟩ := Option.bind_eq_some_iff.1 hrun
      have hturn := turn_of_step ht
      have hfirst : s.Spares maxIdle event := hspares [] event events s rfl rfl
      apply ih (hclosed.turn h hfirst hturn) (h.turn hturn) _ hrest
      intro before e after t' hevents ht'
      apply hspares (event :: before) e after t' (congrArg (event :: ·) hevents)
      rw [run_cons, ht]
      exact ht'

end Exchanges

end Client
