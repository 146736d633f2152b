import GoLike.Registry.Etcd.RegistrationPrograms

/-!
# The turns of registration operations

The operations of an identity have their turns one after the other, in the order in which
they arrive, although the state of the identity is dropped and created again.
-/

open Store Interleave

namespace Registry.Etcd

variable {urls : UrlParser} {ι : Type}

/-- The operation has settled. -/
def Manager.Done (m : Manager urls) (a : ℕ) : Prop := (m.operations a).phase.isSettled = true

/-- The operation still waits for its turn. -/
def Manager.Waiting (m : Manager urls) (a : ℕ) : Prop := (m.operations a).phase = .waiting

/-- The serializer of the identity. Each state knows the operations that have captured it,
and every operation those that have come before it; a state that is dropped has no active
registration and no operation that has not settled. -/
structure Serial (m : Manager urls) : Prop where
  last : ∀ e, m.current = some e → e + 1 = m.created
  dropped : ∀ e, m.current ≠ some e → (m.states e).active = none ∧
    ∀ a < m.calls, (m.operations a).identity = e → m.Done a
  identity : ∀ a < m.calls, (m.operations a).identity < m.created
  order : ∀ a b, a ≤ b → b < m.calls → (m.operations a).identity ≤ (m.operations b).identity
  refs : ∀ e, ∃ l : List ℕ, l.Nodup ∧ l.length = (m.states e).refs ∧
    ∀ a, a ∈ l ↔ a < m.calls ∧ (m.operations a).identity = e ∧ ¬ m.Done a
  tail : ∀ e b, b ∈ (m.states e).tail ↔ b < m.calls ∧ (m.operations b).identity = e
  previous : ∀ a < m.calls, ∀ b, b ∈ (m.operations a).previous ↔
    b < a ∧ (m.operations b).identity = (m.operations a).identity
  turns : ∀ a < m.calls, ¬ m.Waiting a → ∀ b ∈ (m.operations a).previous, m.Done b
  loops : ∀ registration e, m.loops registration = some e → m.aborted registration = false →
    ∃ r, (m.states e).active = some r ∧ r.id = registration

namespace Serial

variable {m : Manager urls}

/-- An operation that has not settled works on the state that the manager holds. -/
theorem current (h : Serial m) {a : ℕ} (ha : a < m.calls) (hdone : ¬ m.Done a) :
  m.current = some (m.operations a).identity
  := by
  by_contra hcurrent
  exact hdone ((h.dropped _ hcurrent).2 a ha rfl)

/-- Operations have their turns in the order of their arrival. -/
theorem done_of_lt (h : Serial m) {a b : ℕ} (hlt : a < b) (hb : b < m.calls)
    (hturn : ¬ m.Waiting b) :
  m.Done a
  := by
  by_contra hdone
  have ha : a < m.calls := hlt.trans hb
  have hlast := h.last _ (h.current ha hdone)
  have horder := h.order a b hlt.le hb
  have hcreated := h.identity b hb
  have hsame : (m.operations a).identity = (m.operations b).identity := by omega
  exact hdone (h.turns b hb hturn a ((h.previous b hb a).mpr ⟨hlt, hsame⟩))

/-- At most one operation has its turn. -/
theorem turn_unique (h : Serial m) {a b : ℕ} (ha : a < m.calls) (hb : b < m.calls)
    (hturn : ¬ m.Waiting a) (hturn' : ¬ m.Waiting b) (hdone : ¬ m.Done a)
    (hdone' : ¬ m.Done b) :
  a = b
  := by
  obtain hlt | heq | hlt := lt_trichotomy a b
  · exact absurd (h.done_of_lt hlt hb hturn') hdone
  · exact heq
  · exact absurd (h.done_of_lt hlt ha hturn) hdone'

/-! ### Arrivals -/

/-- The state of the identity is there, and new if there was none. -/
theorem identityState (h : Serial m) :
  Serial m.identityState.2 ∧ m.identityState.2.current = some m.identityState.1
  := by
  rw [Manager.identityState]
  cases hcurrent : m.current with
  | some e => exact ⟨h, hcurrent⟩
  | none =>
      refine ⟨?_, rfl⟩
      have hnew : ∀ a < m.calls, (m.operations a).identity ≠ m.created := fun a ha =>
        (h.identity a ha).ne
      constructor
      case last =>
        rintro _ ⟨⟩
        rfl
      case dropped =>
        intro e he
        have hne : e ≠ m.created := fun heq => he (congrArg some heq.symm)
        dsimp only
        rw [Function.update_of_ne hne]
        apply h.dropped e
        simp [hcurrent]
      case identity =>
        intro a ha
        exact (h.identity a ha).trans (Nat.lt_succ_self _)
      case order => exact h.order
      case refs =>
        intro e
        by_cases he : e = m.created
        · subst he
          use []
          dsimp only
          rw [Function.update_self]
          refine ⟨List.nodup_nil, rfl, ?_⟩
          intro a
          constructor
          · intro ha
            exact absurd ha List.not_mem_nil
          · rintro ⟨ha, hidentity, -⟩
            exact absurd hidentity (hnew a ha)
        · dsimp only
          rw [Function.update_of_ne he]
          exact h.refs e
      case tail =>
        intro e b
        by_cases he : e = m.created
        · subst he
          dsimp only
          rw [Function.update_self]
          constructor
          · intro hb
            exact absurd hb List.not_mem_nil
          · rintro ⟨hb, hidentity⟩
            exact absurd hidentity (hnew b hb)
        · dsimp only
          rw [Function.update_of_ne he]
          exact h.tail e b
      case previous => exact h.previous
      case turns => exact h.turns
      case loops =>
        intro registration e hloop haborted
        obtain ⟨r, hactive, hid⟩ := h.loops registration e hloop haborted
        have hne : e ≠ m.created := by
          rintro rfl
          have hnone := (h.dropped m.created (by simp [hcurrent])).1
          rw [hnone] at hactive
          cases hactive
        use r
        dsimp only
        rw [Function.update_of_ne hne]
        exact ⟨hactive, hid⟩

/-- An operation queues up on the state that the manager holds. -/
theorem acquire (h : Serial m) {e : ℕ} (hcurrent : m.current = some e) (kind : Kind urls) :
  Serial (m.acquire e kind)
  := by
  have hold : ∀ a < m.calls, (m.acquire e kind).operations a = m.operations a := by
    intro a ha
    exact Function.update_of_ne ha.ne _ _
  have hnew : (m.acquire e kind).operations m.calls =
      ⟨kind, e, (m.states e).tail, none, .waiting⟩ :=
    Function.update_self _ _ _
  have hdone : ∀ a < m.calls, (m.acquire e kind).Done a ↔ m.Done a := by
    intro a ha
    rw [Manager.Done, Manager.Done, hold a ha]
  have hwaits : ¬ (m.acquire e kind).Done m.calls := by
    rw [Manager.Done, hnew]
    exact Bool.false_ne_true
  have hactive : ∀ e', ((m.acquire e kind).states e').active = (m.states e').active := by
    intro e'
    by_cases he : e' = e
    · subst he
      simp [Manager.acquire]
    · simp [Manager.acquire, Function.update_of_ne he]
  have hidentity : ∀ a < m.calls + 1, ((m.acquire e kind).operations a).identity =
      if a = m.calls then e else (m.operations a).identity := by
    intro a ha
    split
    · rename_i heq
      rw [heq, hnew]
    · rename_i hne
      rw [hold a (by omega)]
  have hlast := h.last e hcurrent
  constructor
  case last => exact h.last
  case dropped =>
    intro e' he'
    obtain ⟨hnone, hsettled⟩ := h.dropped e' he'
    refine ⟨(hactive e').trans hnone, ?_⟩
    intro a ha hid
    rw [hidentity a ha] at hid
    split at hid
    · subst hid
      exact absurd hcurrent he'
    · rename_i hne
      have ha' : a < m.calls := by
        change a < m.calls + 1 at ha
        omega
      exact (hdone a ha').mpr (hsettled a ha' hid)
  case identity =>
    intro a ha
    rw [hidentity a ha]
    split
    · change e < m.created
      omega
    · rename_i hne
      apply h.identity a
      change a < m.calls + 1 at ha
      omega
  case order =>
    intro a b hab hb
    change b < m.calls + 1 at hb
    rw [hidentity a (by omega), hidentity b hb]
    split
    · rename_i heq
      rw [if_pos (by omega)]
    · split
      · rename_i hne heq
        have hcreated := h.identity a (by omega)
        omega
      · exact h.order a b hab (by omega)
  case refs =>
    intro e'
    obtain ⟨l, hnodup, hlength, hmem⟩ := h.refs e'
    have hfresh : m.calls ∉ l := fun hin => absurd ((hmem _).mp hin).1 (lt_irrefl _)
    by_cases he : e' = e
    · subst he
      use m.calls :: l
      refine ⟨List.nodup_cons.mpr ⟨hfresh, hnodup⟩, ?_, ?_⟩
      · simp [Manager.acquire, hlength]
      · intro a
        rw [List.mem_cons, hmem]
        constructor
        · rintro (rfl | ⟨ha, hid, hunsettled⟩)
          · refine ⟨Nat.lt_succ_self _, ?_, hwaits⟩
            rw [hnew]
          · refine ⟨ha.trans (Nat.lt_succ_self _), ?_, ?_⟩
            · rw [hold a ha]
              exact hid
            · rw [hdone a ha]
              exact hunsettled
        · rintro ⟨ha, hid, hunsettled⟩
          obtain ha | rfl := Nat.lt_succ_iff_lt_or_eq.mp ha
          · rw [hold a ha] at hid
            rw [hdone a ha] at hunsettled
            exact .inr ⟨ha, hid, hunsettled⟩
          · exact .inl rfl
    · use l
      refine ⟨hnodup, ?_, ?_⟩
      · simp [Manager.acquire, he, hlength]
      · intro a
        rw [hmem]
        constructor
        · rintro ⟨ha, hid, hunsettled⟩
          refine ⟨ha.trans (Nat.lt_succ_self _), ?_, ?_⟩
          · rw [hold a ha]
            exact hid
          · rw [hdone a ha]
            exact hunsettled
        · rintro ⟨ha, hid, hunsettled⟩
          obtain ha | rfl := Nat.lt_succ_iff_lt_or_eq.mp ha
          · rw [hold a ha] at hid
            rw [hdone a ha] at hunsettled
            exact ⟨ha, hid, hunsettled⟩
          · rw [hnew] at hid
            exact absurd hid.symm he
  case tail =>
    intro e' b
    have htail : ((m.acquire e kind).states e').tail =
        (m.states e').tail ++ if e' = e then [m.calls] else [] := by
      by_cases he : e' = e
      · subst he
        simp [Manager.acquire]
      · simp [Manager.acquire, he]
    rw [htail, List.mem_append, h.tail]
    constructor
    · rintro (⟨hb, hid⟩ | hb)
      · refine ⟨hb.trans (Nat.lt_succ_self _), ?_⟩
        rw [hold b hb]
        exact hid
      · split at hb
        · rename_i heq
          rw [List.mem_singleton.mp hb]
          refine ⟨Nat.lt_succ_self _, ?_⟩
          rw [hnew, heq]
        · exact absurd hb List.not_mem_nil
    · rintro ⟨hb, hid⟩
      obtain hb | rfl := Nat.lt_succ_iff_lt_or_eq.mp hb
      · rw [hold b hb] at hid
        exact .inl ⟨hb, hid⟩
      · rw [hnew] at hid
        right
        rw [if_pos hid.symm]
        exact List.mem_singleton_self _
  case previous =>
    intro a ha b
    obtain ha | rfl := Nat.lt_succ_iff_lt_or_eq.mp ha
    · rw [hold a ha, h.previous a ha]
      constructor
      · rintro ⟨hb, hid⟩
        refine ⟨hb, ?_⟩
        rw [hold b (hb.trans ha)]
        exact hid
      · rintro ⟨hb, hid⟩
        rw [hold b (hb.trans ha)] at hid
        exact ⟨hb, hid⟩
    · rw [hnew]
      dsimp only
      rw [h.tail]
      constructor
      · rintro ⟨hb, hid⟩
        refine ⟨hb, ?_⟩
        rw [hold b hb]
        exact hid
      · rintro ⟨hb, hid⟩
        rw [hold b hb] at hid
        exact ⟨hb, hid⟩
  case turns =>
    intro a ha hturn b hb
    obtain ha | rfl := Nat.lt_succ_iff_lt_or_eq.mp ha
    · rw [Manager.Waiting, hold a ha] at hturn
      rw [hold a ha] at hb
      have hlt : b < m.calls := ((h.previous a ha b).mp hb).1.trans ha
      exact (hdone b hlt).mpr (h.turns a ha hturn b hb)
    · rw [Manager.Waiting, hnew] at hturn
      exact absurd rfl hturn
  case loops =>
    intro registration e' hloop haborted
    rw [hactive e']
    exact h.loops registration e' hloop haborted

/-! ### Turns -/

/-- An operation that has its turn goes on. -/
theorem proceed (h : Serial m) {a : ℕ} (ha : a < m.calls) (hdone : ¬ m.Done a)
    {o : Operation urls} (hidentity : o.identity = (m.operations a).identity)
    (hprevious : o.previous = (m.operations a).previous) (ho : o.phase.isSettled = false)
    (hturn : ∀ b ∈ (m.operations a).previous, m.Done b) :
  Serial { m with operations := Function.update m.operations a o }
  := by
  have hsame : ∀ b, (Function.update m.operations a o b).identity = (m.operations b).identity ∧
      (Function.update m.operations a o b).previous = (m.operations b).previous := by
    intro b
    by_cases hb : b = a
    · subst hb
      rw [Function.update_self]
      exact ⟨hidentity, hprevious⟩
    · rw [Function.update_of_ne hb]
      exact ⟨rfl, rfl⟩
  have hsettled : ∀ b,
      Manager.Done { m with operations := Function.update m.operations a o } b ↔ m.Done b := by
    intro b
    by_cases hb : b = a
    · subst hb
      simp [Manager.Done, ho]
      simpa [Manager.Done] using hdone
    · simp [Manager.Done, Function.update_of_ne hb]
  constructor
  case last => exact h.last
  case dropped =>
    intro e he
    obtain ⟨hnone, hall⟩ := h.dropped e he
    refine ⟨hnone, ?_⟩
    intro b hb hid
    rw [hsettled]
    apply hall b hb
    rw [← (hsame b).1]
    exact hid
  case identity =>
    intro b hb
    dsimp only
    rw [(hsame b).1]
    exact h.identity b hb
  case order =>
    intro b c hbc hc
    dsimp only
    rw [(hsame b).1, (hsame c).1]
    exact h.order b c hbc hc
  case refs =>
    intro e
    obtain ⟨l, hnodup, hlength, hmem⟩ := h.refs e
    refine ⟨l, hnodup, hlength, ?_⟩
    intro b
    rw [hmem, hsettled]
    dsimp only
    rw [(hsame b).1]
  case tail =>
    intro e b
    dsimp only
    rw [(hsame b).1]
    exact h.tail e b
  case previous =>
    intro b hb c
    dsimp only
    rw [(hsame b).2, (hsame b).1, (hsame c).1]
    exact h.previous b hb c
  case turns =>
    intro b hb hwaits c hc
    rw [hsettled]
    dsimp only at hc
    rw [(hsame b).2] at hc
    by_cases hba : b = a
    · subst hba
      exact hturn c hc
    · apply h.turns b hb _ c hc
      simpa [Manager.Waiting, Function.update_of_ne hba] using hwaits
  case loops => exact h.loops

/-- The operation that has its turn changes the state of the identity. -/
theorem setState (h : Serial m) {e : ℕ} (hcurrent : m.current = some e)
    (active : Option (ActiveRegistration urls)) (loops : ℕ → Option ℕ) (aborted : ℕ → Bool)
    (adopted : List ℕ)
    (hloops : ∀ registration, loops registration = some e → aborted registration = false →
      ∃ r, active = some r ∧ r.id = registration)
    (hothers : ∀ registration e', e' ≠ e → loops registration = some e' →
      aborted registration = false →
      m.loops registration = some e' ∧ m.aborted registration = false) :
  Serial
    { m with
      states := Function.update m.states e { m.states e with active := active }
      loops := loops
      aborted := aborted
      adopted := adopted }
  := by
  have hsame : ∀ e',
      (Function.update m.states e { m.states e with active := active } e').refs =
        (m.states e').refs ∧
      (Function.update m.states e { m.states e with active := active } e').tail =
        (m.states e').tail := by
    intro e'
    by_cases he : e' = e
    · subst he
      rw [Function.update_self]
      exact ⟨rfl, rfl⟩
    · rw [Function.update_of_ne he]
      exact ⟨rfl, rfl⟩
  constructor
  case last => exact h.last
  case dropped =>
    intro e' he'
    have hne : e' ≠ e := by
      rintro rfl
      exact he' hcurrent
    dsimp only
    rw [Function.update_of_ne hne]
    exact h.dropped e' he'
  case identity => exact h.identity
  case order => exact h.order
  case refs =>
    intro e'
    dsimp only
    rw [(hsame e').1]
    exact h.refs e'
  case tail =>
    intro e' b
    dsimp only
    rw [(hsame e').2]
    exact h.tail e' b
  case previous => exact h.previous
  case turns => exact h.turns
  case loops =>
    intro registration e' hloop haborted
    dsimp only at hloop haborted ⊢
    by_cases he : e' = e
    · subst he
      rw [Function.update_self]
      exact hloops registration hloop haborted
    · rw [Function.update_of_ne he]
      obtain ⟨hloop', haborted'⟩ := hothers registration e' he hloop haborted
      exact h.loops registration e' hloop' haborted'

/-- An operation leaves the state of the identity, which is dropped when no operation holds
or awaits it and no registration is active. -/
theorem release (h : Serial m) {a : ℕ} (ha : a < m.calls) (hdone : ¬ m.Done a)
    (hturn : ¬ m.Waiting a) (outcome : Except Thrown Settled) :
  Serial (m.release a outcome)
  := by
  have hsame : ∀ b, ((m.release a outcome).operations b).identity = (m.operations b).identity ∧
      ((m.release a outcome).operations b).previous = (m.operations b).previous := by
    intro b
    by_cases hb : b = a
    · subst hb
      simp [Manager.release, Manager.proceed]
    · simp [Manager.release, Manager.proceed, Function.update_of_ne hb]
  have hsettled : ∀ b, (m.release a outcome).Done b ↔ m.Done b ∨ b = a := by
    intro b
    by_cases hb : b = a
    · subst hb
      simp [Manager.Done, Manager.release, Manager.proceed, Progress.isSettled]
    · simp [Manager.Done, Manager.release, Manager.proceed, hb]
  have hstate : ∀ e, ((m.release a outcome).states e).active = (m.states e).active ∧
      ((m.release a outcome).states e).tail = (m.states e).tail := by
    intro e
    by_cases he : e = (m.operations a).identity
    · subst he
      simp [Manager.release]
    · simp [Manager.release, Manager.proceed, Function.update_of_ne he]
  have hrefs : ∀ e, ((m.release a outcome).states e).refs =
      if e = (m.operations a).identity then (m.states e).refs - 1 else (m.states e).refs := by
    intro e
    by_cases he : e = (m.operations a).identity
    · subst he
      simp [Manager.release]
    · simp [Manager.release, Manager.proceed, he]
  have hcurrent : ∀ e, (m.release a outcome).current = some e → m.current = some e := by
    intro e he
    simp only [Manager.release] at he
    split at he
    · cases he
    · exact he
  have hheld := h.current ha hdone
  constructor
  case last =>
    intro e he
    exact h.last e (hcurrent e he)
  case dropped =>
    intro e he
    rw [(hstate e).1]
    by_cases hold : m.current = some e
    · -- the state is dropped now: there is no active registration, and no reference is left
      rw [hold] at hheld
      cases hheld
      have hcondition : (m.states (m.operations a).identity).active.isNone = true ∧
          (m.states (m.operations a).identity).refs - 1 = 0 ∧
          m.current = some (m.operations a).identity := by
        by_contra hkept
        apply he
        simp only [Manager.release]
        rw [if_neg hkept]
        exact hold
      obtain ⟨hnone, hzero, -⟩ := hcondition
      refine ⟨Option.isNone_iff_eq_none.mp hnone, ?_⟩
      intro b hb hid
      rw [hsettled]
      by_contra hopen
      have hopen' : ¬ m.Done b ∧ b ≠ a := not_or.mp hopen
      rw [(hsame b).1] at hid
      obtain ⟨l, hnodup, hlength, hmem⟩ := h.refs (m.operations a).identity
      have hsub : [a, b] ⊆ l := by
        intro c hc
        obtain rfl | hc := List.mem_cons.mp hc
        · exact (hmem _).mpr ⟨ha, rfl, hdone⟩
        · rw [List.mem_singleton.mp hc]
          exact (hmem _).mpr ⟨hb, hid, hopen'.1⟩
      have hpair : [a, b].Nodup := by simp [Ne.symm hopen'.2]
      have htwo := (List.subperm_of_subset hpair hsub).length_le
      simp only [List.length_cons, List.length_nil] at htwo
      omega
    · obtain ⟨hnone, hall⟩ := h.dropped e hold
      refine ⟨hnone, ?_⟩
      intro b hb hid
      rw [(hsame b).1] at hid
      rw [hsettled]
      exact .inl (hall b hb hid)
  case identity =>
    intro b hb
    rw [(hsame b).1]
    exact h.identity b hb
  case order =>
    intro b c hbc hc
    rw [(hsame b).1, (hsame c).1]
    exact h.order b c hbc hc
  case refs =>
    intro e
    obtain ⟨l, hnodup, hlength, hmem⟩ := h.refs e
    rw [hrefs]
    split
    · rename_i he
      have hin : a ∈ l := (hmem a).mpr ⟨ha, he.symm, hdone⟩
      refine ⟨l.erase a, hnodup.erase a, ?_, ?_⟩
      · rw [List.length_erase_of_mem hin, hlength]
      · intro b
        rw [hnodup.mem_erase_iff, hmem, hsettled, (hsame b).1]
        constructor
        · rintro ⟨hne, hb, hid, hopen⟩
          exact ⟨hb, hid, not_or.mpr ⟨hopen, hne⟩⟩
        · rintro ⟨hb, hid, hopen⟩
          obtain ⟨hopen, hne⟩ := not_or.mp hopen
          exact ⟨hne, hb, hid, hopen⟩
    · rename_i he
      refine ⟨l, hnodup, hlength, ?_⟩
      intro b
      rw [hmem, hsettled, (hsame b).1]
      constructor
      · rintro ⟨hb, hid, hopen⟩
        refine ⟨hb, hid, not_or.mpr ⟨hopen, ?_⟩⟩
        rintro rfl
        exact he hid.symm
      · rintro ⟨hb, hid, hopen⟩
        exact ⟨hb, hid, (not_or.mp hopen).1⟩
  case tail =>
    intro e b
    rw [(hstate e).2, (hsame b).1]
    exact h.tail e b
  case previous =>
    intro b hb c
    rw [(hsame b).2, (hsame b).1, (hsame c).1]
    exact h.previous b hb c
  case turns =>
    intro b hb hwaits c hc
    rw [(hsame b).2] at hc
    rw [hsettled]
    left
    by_cases hba : b = a
    · subst hba
      exact h.turns b hb hturn c hc
    · apply h.turns b hb _ c hc
      simpa [Manager.Waiting, Manager.release, Manager.proceed, Function.update_of_ne hba]
        using hwaits
  case loops =>
    intro registration e hloop haborted
    rw [(hstate e).1]
    exact h.loops registration e hloop haborted

end Serial

end Registry.Etcd
