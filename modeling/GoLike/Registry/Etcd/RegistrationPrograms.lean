import GoLike.Registry.Etcd.RegistrationRules

/-!
# The programs of registration operations

Registering, deregistering and heartbeats keep to the rules of an operation. When one of
them settles, its leases are accounted for, and the active registration is sound. A
register that throws leaves the active registration as it was.
-/

open Store Interleave

namespace Registry.Etcd

variable {urls : UrlParser} {ι : Type} {i : ι} {a identity : ℕ} {v : View urls ι}

/-! ### What an operation establishes -/

/-- The active registration holds a lease of the manager, its owner has not been aborted, and
its heartbeats have started. -/
def Sound (i : ι) (identity : ℕ) (v : View urls ι) : Prop :=
  ∀ r, v.active = some r →
    Granted i v.server r.lease ∧ v.aborted r.id = false ∧ v.loops r.id = some identity

def Kind.isRegister : Kind urls → Bool
  | .register _ => true
  | _ => false

/-- What an operation establishes when it settles. -/
structure Post (i : ι) (a identity : ℕ) (kind : Kind urls)
    (found : Option (ActiveRegistration urls)) (r : Except Thrown Settled) (v : View urls ι) :
    Prop where
  /-- The leases that it has received were adopted or revoked. -/
  accounted : ∀ g ∈ v.server.grants, g.manager = i → g.operation = a → g.answered = true →
    g.lease ∈ v.adopted ∨ g.lease ∈ v.server.revocations
  sound : Sound i identity v
  rejected : kind.isRegister = true → ∀ e, r = .error e → v.active = found
  owned : r = .ok .owned → ∃ registration, v.active = some registration ∧
    Holds i registration.wire.value registration.lease v.server

variable {v' : View urls ι}

theorem Sound.interferes (h : Sound i identity v) (hstep : Interferes i v v') :
  Sound i identity v'
  := by
  intro r hr
  rw [hstep.1] at hr ⊢
  obtain ⟨hgranted, hlive⟩ := h r hr
  exact ⟨hgranted.mono hstep.2.grants, hlive⟩

theorem Sound.quiet {pending : List ℕ} (h : Sound i identity v) (hquiet : Quiet i a pending v v') :
  Sound i identity v'
  := by
  intro r hr
  rw [hquiet.1] at hr ⊢
  obtain ⟨hgranted, hlive⟩ := h r hr
  exact ⟨hgranted.mono hquiet.2.grants, hlive⟩

/-- What is established stays so until the operation leaves. -/
theorem Post.interferes {kind : Kind urls} {found : Option (ActiveRegistration urls)}
    {r : Except Thrown Settled} (h : Post i a identity kind found r v) (hstep : Interferes i v v') :
  Post i a identity kind found r v'
  := by
  have hsound := h.sound
  obtain ⟨hview, hothers⟩ := hstep
  constructor
  case accounted =>
    intro g hg hi ha hanswered
    rw [hview]
    obtain hadopted | hrevoked := h.accounted g (hothers.own g hg hi) hi ha hanswered
    · exact .inl hadopted
    · exact .inr (hothers.revocations hrevoked)
  case sound => exact hsound.interferes ⟨hview, hothers⟩
  case rejected =>
    rw [hview]
    exact h.rejected
  case owned =>
    intro hr
    rw [hview]
    obtain ⟨registration, hactive, hholds⟩ := h.owned hr
    exact ⟨registration, hactive, hholds.others (hsound _ hactive).1 hothers⟩

/-- The leases that an operation has received are accounted for, when it had received none
before and adopts those that are pending. -/
theorem accounted_of_later {pending : List ℕ}
    (hfresh : ∀ g ∈ v.server.grants, g.manager = i → g.operation ≠ a)
    (hlater : Later i a pending v.server v'.server)
    (hadopted : ∀ lease ∈ pending, lease ∈ v'.adopted) :
  ∀ g ∈ v'.server.grants, g.manager = i → g.operation = a → g.answered = true →
    g.lease ∈ v'.adopted ∨ g.lease ∈ v'.server.revocations
  := by
  intro g hg hi ha hanswered
  obtain hg | hrevoked | hpending := hlater.received g hg hi ha hanswered
  · exact absurd ha (hfresh g hg hi)
  · exact .inr hrevoked
  · exact .inl (hadopted _ hpending)

/-- An operation that has changed nothing of the state of the identity. -/
theorem post_of_quiet {kind : Kind urls} {r : Except Thrown Settled}
    (hfresh : ∀ g ∈ v.server.grants, g.manager = i → g.operation ≠ a) (hsound : Sound i identity v)
    (hquiet : Quiet i a [] v v')
    (howned : r = .ok .owned → ∃ registration, v'.active = some registration ∧ Holds i registration.wire.value registration.lease v'.server) :
  Post i a identity kind v.active r v'
  := by
  constructor
  case accounted => exact accounted_of_later hfresh hquiet.2 nofun
  case sound => exact hsound.quiet hquiet
  case rejected =>
    intro _ _ _
    rw [hquiet.1]
  case owned => exact howned

/-! ### Leases -/

theorem grantLease_assures :
  (rules urls i a identity).Assures
    (fun r v' => (∀ lease, r = .ok lease → Quiet i a [lease] v v' ∧ Granted i v'.server lease) ∧
      ∀ e, r = .error e → Quiet i a [] v v')
    grantLease v
  := by
  apply post_assures
  intro v₁ hbefore
  refine ⟨trivial, ?_⟩
  intro applied r server v₂ hserves hafter
  constructor
  · rintro lease rfl
    obtain ⟨hlater, hgranted⟩ := hserves.received
    have hserved : Quiet i a [lease] v₁ { v₁ with server := server } := ⟨rfl, hlater⟩
    exact ⟨((hbefore.quiet a).trans hserved).waits hafter, hgranted.mono hafter.2.grants⟩
  · rintro e rfl
    have hserved : Quiet i a [] v₁ { v₁ with server := server } := ⟨rfl, hserves.notReceived⟩
    exact ((hbefore.quiet a).trans hserved).waits hafter

variable {lease : ℕ}

/-- A lease that is retired is no longer pending. -/
theorem retire_pending (hquiet : Quiet i a [lease] v v') (hgranted : Granted i v'.server lease) :
  (rules urls i a identity).Assures (fun r v'' => r = .ok () ∧ Quiet i a [] v v'')
    (retire lease) v'
  := by
  apply (retire_assures hgranted).mono
  rintro r v'' ⟨hr, hv'', hrevoked⟩
  have htrans := hquiet.trans hv''
  rw [List.append_nil] at htrans
  exact ⟨hr, htrans.revoked hrevoked⟩

/-- A lease is pending after its record has been published, and revoked otherwise. -/
theorem admitRecord_assures (wire : EncodedRecord urls) :
  (rules urls i a identity).Assures
    (fun r v' => (∀ lease, r = .ok lease → Quiet i a [lease] v v' ∧ Granted i v'.server lease) ∧
      ∀ e, r = .error e → Quiet i a [] v v')
    (admitRecord wire) v
  := by
  apply Conduct.Assures.bind grantLease_assures
  · rintro lease v' ⟨hok, -⟩
    obtain ⟨hv', hgranted⟩ := hok lease rfl
    have hpublish : (rules urls i a identity).Assures
        (fun r v'' => Quiet i a [lease] v v'' ∧ Granted i v''.server lease ∧
          ∀ x, r = .ok x → x = lease)
        (do
          publish wire lease
          return lease : Call urls ℕ) v' := by
      apply Conduct.Assures.bind (publish_quiet wire hgranted)
      · intro _ v'' hv''
        apply return_assures
        intro v₁ hwaits
        have hquiet := hv''.waits hwaits
        refine ⟨?_, hgranted.quiet hquiet, ?_⟩
        · have htrans := hv'.trans hquiet
          rw [List.append_nil] at htrans
          exact htrans
        · rintro _ ⟨⟩
          rfl
      · intro e v'' hv''
        apply throw_assures
        intro v₁ hwaits
        have hquiet := hv''.waits hwaits
        refine ⟨?_, hgranted.quiet hquiet, nofun⟩
        have htrans := hv'.trans hquiet
        rw [List.append_nil] at htrans
        exact htrans
    apply Conduct.Assures.tryCatch hpublish
    · rintro x v'' ⟨hv'', hgranted', hx⟩
      apply return_assures
      intro v₁ hwaits
      constructor
      · rintro _ ⟨⟩
        rw [hx x rfl]
        exact ⟨hv''.waits hwaits, hgranted'.interferes hwaits⟩
      · nofun
    · rintro e v'' ⟨hv'', hgranted', -⟩
      apply Conduct.Assures.bind (retire_pending hv'' hgranted')
      · rintro _ v₁ ⟨-, hv₁⟩
        apply throw_assures
        intro v₂ hwaits
        constructor
        · nofun
        · rintro _ ⟨⟩
          exact hv₁.waits hwaits
      · rintro _ v₁ ⟨hr, -⟩
        cases hr
  · rintro e v' ⟨-, herror⟩
    apply throw_assures
    intro v'' hwaits
    constructor
    · nofun
    · rintro _ ⟨⟩
      exact (herror e rfl).waits hwaits

/-! ### The state of the identity -/

theorem active_assures :
  (rules urls i a identity).Assures (fun r v' => r = .ok v.active ∧ Interferes i v v')
    (ask .active) v
  := by
  apply ask_assures
  intro v₁ hbefore
  refine ⟨trivial, ?_⟩
  intro applied r v₂ v₃ hserves hafter
  cases hserves with
  | active =>
      refine ⟨?_, hbefore.trans hafter⟩
      rw [hbefore.1]

theorem contextFailure_assures :
  (rules urls i a identity).Assures (fun r v' => (∃ ended, r = .ok ended) ∧ Interferes i v v')
    (ask .contextFailure) v
  := by
  apply ask_assures
  intro v₁ hbefore
  refine ⟨trivial, ?_⟩
  intro applied r v₂ v₃ hserves hafter
  cases hserves with
  | contextFailure => exact ⟨⟨_, rfl⟩, hbefore.trans hafter⟩

theorem aborted_assures (registration : ℕ) :
  (rules urls i a identity).Assures
    (fun r v' => r = .ok (v.aborted registration) ∧ Interferes i v v')
    (ask (.aborted registration)) v
  := by
  apply ask_assures
  intro v₁ hbefore
  refine ⟨trivial, ?_⟩
  intro applied r v₂ v₃ hserves hafter
  cases hserves with
  | aborted =>
      refine ⟨?_, hbefore.trans hafter⟩
      rw [hbefore.1]

variable {registration : ActiveRegistration urls}

theorem deactivate_assures (hactive : v.active = some registration) :
  (rules urls i a identity).Assures
    (fun r v' => r = .ok () ∧ v'.active = none ∧ Later i a [] v.server v'.server)
    (ask (.deactivate registration.id)) v
  := by
  apply ask_assures
  intro v₁ hbefore
  constructor
  · rw [Permitted, hbefore.1]
    exact ⟨registration, hactive, rfl⟩
  · intro applied r v₂ v₃ hserves hafter
    cases hserves with
    | deactivate =>
        refine ⟨rfl, ?_, (hbefore.2.later a).trans (hafter.2.later a)⟩
        rw [hafter.1]

/-- An operation that leaves no registration active. -/
theorem post_of_none (kind : Kind urls) (found : Option (ActiveRegistration urls))
    (hfresh : ∀ g ∈ v.server.grants, g.manager = i → g.operation ≠ a)
    (hlater : Later i a [] v.server v'.server) (hnone : v'.active = none) :
  Post i a identity kind found (.ok .finished) v'
  := by
  constructor
  case accounted =>
    apply accounted_of_later hfresh hlater
    intro _ hmem
    exact absurd hmem List.not_mem_nil
  case sound =>
    intro r hr
    rw [hnone] at hr
    cases hr
  case rejected =>
    rintro _ _ ⟨⟩
  case owned =>
    rintro ⟨⟩

/-! ### Registering -/

theorem rollback_quiet (wire : EncodedRecord urls) {previous : Option (ActiveRegistration urls)}
    (hgranted : ∀ r, previous = some r → Granted i v.server r.lease) :
  (rules urls i a identity).Assures (fun r v' => r = .ok () ∧ Quiet i a [] v v')
    (rollback wire previous) v
  := by
  have hdone : ∀ v', Quiet i a [] v v' → (rules urls i a identity).Assures
      (fun r v' => r = .ok () ∧ Quiet i a [] v v') (pure () : Call urls Unit) v' := by
    intro v' hv'
    apply return_assures
    intro v'' hwaits
    exact ⟨rfl, hv'.waits hwaits⟩
  cases previous with
  | some previous =>
      apply Conduct.Assures.tryCatch (publish_quiet previous.wire (hgranted previous rfl))
      · exact fun _ => hdone
      · exact fun _ => hdone
  | none =>
      apply Conduct.Assures.tryCatch (remove_quiet wire)
      · exact fun _ => hdone
      · exact fun _ => hdone

/-- The owner of the active registration is aborted. -/
theorem replace_assures (hsound : Sound i identity v) :
  (rules urls i a identity).Assures
    (fun r v' => r = .ok () ∧ v'.active = v.active ∧ Later i a [] v.server v'.server ∧
      ∀ registration, v'.active = some registration → v'.aborted registration.id = true)
    (replace v.active) v
  := by
  cases hactive : v.active with
  | none =>
      apply return_assures
      intro v' hwaits
      have hactive' : v'.active = none := by
        rw [hwaits.1]
        exact hactive
      refine ⟨rfl, hactive', hwaits.2.later a, ?_⟩
      intro registration hregistration
      rw [hactive'] at hregistration
      cases hregistration
  | some previous =>
      obtain ⟨hgranted, -⟩ := hsound previous hactive
      have habort : (rules urls i a identity).Assures
          (fun r v' => r = .ok () ∧ v'.active = some previous ∧
            v'.aborted previous.id = true ∧ Granted i v'.server previous.lease ∧
            Later i a [] v.server v'.server)
          (ask (.abort previous.id)) v := by
        apply ask_assures
        intro v₁ hbefore
        refine ⟨trivial, ?_⟩
        intro applied r v₂ v₃ hserves hafter
        cases hserves with
        | abort =>
            refine ⟨rfl, ?_, ?_, ?_, ?_⟩
            · rw [hafter.1, hbefore.1]
              exact hactive
            · rw [hafter.1]
              exact Function.update_self _ _ _
            · exact (hgranted.interferes hbefore).mono hafter.2.grants
            · exact (hbefore.2.later a).trans (hafter.2.later a)
      apply Conduct.Assures.bind habort
      · rintro _ v' ⟨-, hactive', haborted, hgranted', hlater⟩
        apply (retire_assures hgranted').mono
        rintro r v'' ⟨hr, hquiet, -⟩
        have hactive'' : v''.active = some previous := by
          rw [hquiet.1]
          exact hactive'
        refine ⟨hr, hactive'', hlater.trans hquiet.2, ?_⟩
        intro registration hregistration
        rw [hactive''] at hregistration
        cases hregistration
        rw [hquiet.1]
        exact haborted
      · rintro _ v' ⟨hr, -⟩
        cases hr

theorem activate_assures (wire : EncodedRecord urls) (kind : Kind urls)
    (found : Option (ActiveRegistration urls))
    (hfresh : ∀ g ∈ v.server.grants, g.manager = i → g.operation ≠ a)
    (hlater : Later i a [lease] v.server v'.server) (hgranted : Granted i v'.server lease)
    (haborted : ∀ r, v'.active = some r → v'.aborted r.id = true) :
  (rules urls i a identity).Assures (Post i a identity kind found)
    (do
      ask (.activate wire lease)
      return .finished : Call urls Settled) v'
  := by
  have hactivate : (rules urls i a identity).Assures
      (fun r v'' => r = .ok () ∧ v''.active = some ⟨a, wire, lease⟩ ∧
        v''.aborted a = false ∧ v''.loops a = some identity ∧ lease ∈ v''.adopted ∧
        Later i a [lease] v.server v''.server ∧ Granted i v''.server lease)
      (ask (.activate wire lease)) v' := by
    apply ask_assures
    intro v₁ hbefore
    refine ⟨⟨hgranted.interferes hbefore, ?_⟩, ?_⟩
    · rw [hbefore.1]
      exact haborted
    · intro applied r v₂ v₃ hserves hafter
      cases hserves with
      | activate =>
          have hlater' := (hlater.trans (hbefore.2.later a)).trans (hafter.2.later a)
          refine ⟨rfl, ?_, ?_, ?_, ?_, hlater', ?_⟩
          · rw [hafter.1]
          · rw [hafter.1]
            exact Function.update_self _ _ _
          · rw [hafter.1]
            exact Function.update_self _ _ _
          · rw [hafter.1]
            exact List.mem_cons_self
          · exact (hgranted.interferes hbefore).mono hafter.2.grants
  apply Conduct.Assures.bind hactivate
  · rintro _ v₁ ⟨-, hactive, hlive, hloops, hadopted, hlater', hgranted'⟩
    apply return_assures
    intro v₂ hwaits
    have hpost : Post i a identity kind found (.ok .finished) v₁ := by
      constructor
      case accounted =>
        apply accounted_of_later hfresh hlater'
        intro x hx
        rw [List.mem_singleton.mp hx]
        exact hadopted
      case sound =>
        intro r hr
        rw [hactive] at hr
        cases hr
        exact ⟨hgranted', hlive, hloops⟩
      case rejected =>
        rintro _ _ ⟨⟩
      case owned =>
        rintro ⟨⟩
    exact hpost.interferes hwaits
  · rintro _ v₁ ⟨hr, -⟩
    cases hr

/-- Registering keeps to the rules. A register that throws has changed nothing. -/
theorem register_assures (wire : EncodedRecord urls)
    (hfresh : ∀ g ∈ v.server.grants, g.manager = i → g.operation ≠ a)
    (hsound : Sound i identity v) :
  (rules urls i a identity).Assures (Post i a identity (.register wire) v.active)
    (register wire) v
  := by
  apply Conduct.Assures.bind active_assures
  · rintro _ v₀ ⟨⟨⟩, hv₀⟩
    apply Conduct.Assures.bind (admitRecord_assures wire)
    · rintro lease v₁ ⟨hok, -⟩
      obtain ⟨hadmitted, hgranted⟩ := hok lease rfl
      have hv₁ : Quiet i a [lease] v v₁ := (hv₀.quiet a).trans hadmitted
      apply Conduct.Assures.bind contextFailure_assures
      · rintro ended v₂ ⟨-, hwaits⟩
        have hv₂ := hv₁.waits hwaits
        have hgranted₂ := hgranted.interferes hwaits
        have hsound₂ := hsound.quiet hv₂
        have hactive₂ : v₂.active = v.active := by rw [hv₂.1]
        split
        · have hprevious : ∀ r, v.active = some r → Granted i v₂.server r.lease := by
            intro r hr
            rw [← hactive₂] at hr
            exact (hsound₂ r hr).1
          apply Conduct.Assures.bind (rollback_quiet wire hprevious)
          · rintro _ v₃ ⟨-, hv₃⟩
            have hpending : Quiet i a [lease] v v₃ := hv₂.trans hv₃
            apply Conduct.Assures.bind (retire_pending hpending (hgranted₂.quiet hv₃))
            · rintro _ v₄ ⟨-, hv₄⟩
              apply throw_assures
              intro v₅ hwaits'
              apply post_of_quiet hfresh hsound (hv₄.waits hwaits')
              rintro ⟨⟩
            · rintro _ v₄ ⟨hr, -⟩
              cases hr
          · rintro _ v₃ ⟨hr, -⟩
            cases hr
        · rw [← hactive₂]
          apply Conduct.Assures.bind (replace_assures hsound₂)
          · rintro _ v₃ ⟨-, -, hlater, haborted⟩
            exact activate_assures wire _ _ hfresh (hv₂.2.trans hlater)
              (hgranted₂.mono hlater.grants) haborted
          · rintro _ v₃ ⟨hr, -⟩
            cases hr
      · rintro _ v₂ ⟨⟨_, hr⟩, -⟩
        cases hr
    · rintro e v₁ ⟨-, herror⟩
      apply throw_assures
      intro v₂ hwaits
      apply post_of_quiet hfresh hsound (((hv₀.quiet a).trans (herror e rfl)).waits hwaits)
      rintro ⟨⟩
  · rintro _ v₀ ⟨hr, -⟩
    cases hr

/-! ### Deregistering -/

/-- The active registration ends. -/
theorem dismiss_assures (hsound : Sound i identity v) :
  (rules urls i a identity).Assures
    (fun r v' => r = .ok () ∧ v'.active = none ∧ Later i a [] v.server v'.server)
    (dismiss v.active) v
  := by
  cases hactive : v.active with
  | none =>
      apply return_assures
      intro v' hwaits
      refine ⟨rfl, ?_, hwaits.2.later a⟩
      rw [hwaits.1]
      exact hactive
  | some active =>
      obtain ⟨hgranted, -⟩ := hsound active hactive
      apply Conduct.Assures.bind (deactivate_assures hactive)
      · rintro _ v' ⟨-, hnone, hlater⟩
        apply (retire_assures (hgranted.mono hlater.grants)).mono
        rintro r v'' ⟨hr, hquiet, -⟩
        refine ⟨hr, ?_, hlater.trans hquiet.2⟩
        rw [hquiet.1]
        exact hnone
      · rintro _ v' ⟨hr, -⟩
        cases hr

theorem deregister_assures (wire : Except RegistryError (EncodedRecord urls))
    (hfresh : ∀ g ∈ v.server.grants, g.manager = i → g.operation ≠ a)
    (hsound : Sound i identity v) :
  (rules urls i a identity).Assures (Post i a identity (.deregister wire) v.active)
    (deregister wire) v
  := by
  apply Conduct.Assures.bind active_assures
  · rintro _ v₀ ⟨⟨⟩, hv₀⟩
    have hsettle : (rules urls i a identity).Assures (fun _ v' => Quiet i a [] v v')
        (settle (removedRecord v.active wire)) v₀ := by
      apply Conduct.assures_settle
      intro v₁ hwaits
      exact (hv₀.trans (interferes_of_waits hwaits)).quiet a
    apply Conduct.Assures.bind hsettle
    · intro record v₁ hv₁
      apply Conduct.Assures.bind (remove_quiet record)
      · intro _ v₂ hremoved
        have hv₂ : Quiet i a [] v v₂ := hv₁.trans hremoved
        apply Conduct.Assures.bind contextFailure_assures
        · rintro ended v₃ ⟨-, hwaits⟩
          have hv₃ := hv₂.waits hwaits
          split
          · apply throw_assures
            intro v₄ hwaits'
            apply post_of_quiet hfresh hsound (hv₃.waits hwaits')
            rintro ⟨⟩
          · have hactive₃ : v₃.active = v.active := by rw [hv₃.1]
            rw [← hactive₃]
            apply Conduct.Assures.bind (dismiss_assures (hsound.quiet hv₃))
            · rintro _ v₄ ⟨-, hnone, hlater⟩
              apply return_assures
              intro v₅ hwaits'
              exact (post_of_none _ _ hfresh (hv₃.2.trans hlater) hnone).interferes hwaits'
            · rintro _ v₄ ⟨hr, -⟩
              cases hr
        · rintro _ v₃ ⟨⟨_, hr⟩, -⟩
          cases hr
      · intro e v₂ hremoved
        apply throw_assures
        intro v₃ hwaits
        apply post_of_quiet hfresh hsound ((hv₁.trans hremoved).waits hwaits)
        rintro ⟨⟩
    · intro e v₁ hv₁
      apply throw_assures
      intro v₂ hwaits
      apply post_of_quiet hfresh hsound (hv₁.waits hwaits)
      rintro ⟨⟩
  · rintro _ v₀ ⟨hr, -⟩
    cases hr

/-! ### Heartbeats -/

/-- The registration has been given a lease under which its record was restored. -/
def Renewed (i : ι) (a : ℕ) (registration : ActiveRegistration urls) (v v' : View urls ι) :
    Prop :=
  ∃ lease, v' = { v with
      server := v'.server
      active := some { registration with lease := lease }
      adopted := lease :: v.adopted } ∧
    Later i a [lease] v.server v'.server ∧ Granted i v'.server lease ∧
    Holds i registration.wire.value lease v'.server

theorem Renewed.interferes {v'' : View urls ι} (h : Renewed i a registration v v')
    (hstep : Interferes i v' v'') :
  Renewed i a registration v v''
  := by
  obtain ⟨lease, hview, hlater, hgranted, hholds⟩ := h
  refine ⟨lease, ?_, ?_, hgranted.interferes hstep, hholds.others hgranted hstep.2⟩
  · rw [hstep.1, hview]
  · exact hlater.trans (hstep.2.later a)

theorem Renewed.quiet {v'' : View urls ι} (hquiet : Quiet i a [] v v')
    (h : Renewed i a registration v' v'') :
  Renewed i a registration v v''
  := by
  obtain ⟨lease, hview, hlater, hgranted, hholds⟩ := h
  refine ⟨lease, ?_, hquiet.2.trans hlater, hgranted, hholds⟩
  rw [hview, hquiet.1]

/-- The active registration is given a pending lease. -/
theorem setLease_assures (hactive : v.active = some registration) (hquiet : Quiet i a [lease] v v')
    (hgranted : Granted i v'.server lease)
    (hholds : Holds i registration.wire.value lease v'.server) :
  (rules urls i a identity).Assures
    (fun r v'' => r = .ok () ∧ Renewed i a registration v v'')
    (ask (.setLease registration.id lease)) v'
  := by
  apply ask_assures
  intro v₁ hbefore
  have hv₁ := hquiet.waits hbefore
  have hgranted₁ := hgranted.interferes hbefore
  have hactive₁ : v₁.active = some registration := by
    rw [hv₁.1]
    exact hactive
  refine ⟨⟨hgranted₁, registration, hactive₁, rfl⟩, ?_⟩
  intro applied r v₂ v₃ hserves hafter
  cases hserves with
  | setLease =>
      have hset : Renewed i a registration v
          { v₁ with
            active := v₁.active.map (fun active =>
              if active.id = registration.id then { active with lease := lease } else active)
            adopted := lease :: v₁.adopted } := by
        refine ⟨lease, ?_, hv₁.2, hgranted₁, hholds.others hgranted hbefore.2⟩
        rw [hactive₁, hv₁.1]
        simp
      exact ⟨rfl, hset.interferes hafter⟩

theorem restoreExpired_assures (hactive : v.active = some registration) :
  (rules urls i a identity).Assures
    (fun r v' => (r = .ok true → Renewed i a registration v v') ∧
      (r ≠ .ok true → Quiet i a [] v v'))
    (restoreExpired registration) v
  := by
  apply Conduct.Assures.bind grantLease_assures
  · rintro lease v₁ ⟨hok, -⟩
    obtain ⟨hv₁, hgranted⟩ := hok lease rfl
    have hrestore : (rules urls i a identity).Assures
        (fun r v' => (∀ accepted, r = .ok accepted → Quiet i a [lease] v v' ∧
            Granted i v'.server lease ∧
            (accepted = true → Holds i registration.wire.value lease v'.server)) ∧
          ∀ e, r = .error e → Quiet i a [] v v')
        (tryCatch (restore registration.wire lease) (fun e => do
          retire lease
          throw e)) v₁ := by
      apply Conduct.Assures.tryCatch (restore_assures registration.wire hgranted)
      · rintro accepted v₂ ⟨hv₂, hholds⟩
        have hpending : Quiet i a [lease] v v₂ := hv₁.trans hv₂
        have hgranted₂ := hgranted.quiet hv₂
        apply return_assures
        intro v₃ hwaits
        constructor
        · rintro _ ⟨⟩
          refine ⟨hpending.waits hwaits, hgranted₂.interferes hwaits, ?_⟩
          rintro rfl
          exact (hholds rfl).others hgranted₂ hwaits.2
        · rintro _ ⟨⟩
      · rintro e v₂ ⟨hv₂, -⟩
        have hpending : Quiet i a [lease] v v₂ := hv₁.trans hv₂
        apply Conduct.Assures.bind (retire_pending hpending (hgranted.quiet hv₂))
        · rintro _ v₃ ⟨-, hv₃⟩
          apply throw_assures
          intro v₄ hwaits
          constructor
          · rintro _ ⟨⟩
          · rintro _ ⟨⟩
            exact hv₃.waits hwaits
        · rintro _ v₃ ⟨hr, -⟩
          cases hr
    apply Conduct.Assures.bind hrestore
    · rintro accepted v₂ ⟨hrestored, -⟩
      obtain ⟨hv₂, hgranted₂, hholds⟩ := hrestored accepted rfl
      split
      · rename_i haccepted
        apply Conduct.Assures.bind (setLease_assures hactive hv₂ hgranted₂ (hholds haccepted))
        · rintro _ v₃ ⟨-, hrenewed⟩
          apply return_assures
          intro v₄ hwaits
          exact ⟨fun _ => hrenewed.interferes hwaits, fun hne => absurd rfl hne⟩
        · rintro _ v₃ ⟨hr, -⟩
          cases hr
      · apply Conduct.Assures.bind (retire_pending hv₂ hgranted₂)
        · rintro _ v₃ ⟨-, hv₃⟩
          apply return_assures
          intro v₄ hwaits
          constructor
          · rintro ⟨⟩
          · intro _
            exact hv₃.waits hwaits
        · rintro _ v₃ ⟨hr, -⟩
          cases hr
    · rintro e v₂ ⟨-, herror⟩
      apply throw_assures
      intro v₃ hwaits
      constructor
      · rintro ⟨⟩
      · intro _
        exact (herror e rfl).waits hwaits
  · rintro e v₁ ⟨-, herror⟩
    apply throw_assures
    intro v₂ hwaits
    constructor
    · rintro ⟨⟩
    · intro _
      exact (herror e rfl).waits hwaits

theorem stillOwns_assures (hactive : v.active = some registration) (hsound : Sound i identity v) :
  (rules urls i a identity).Assures
    (fun r v' => Quiet i a [] v v' ∧ (r = .ok true →
      Holds i registration.wire.value registration.lease v'.server))
    (stillOwns registration) v
  := by
  obtain ⟨hgranted, hlive, -⟩ := hsound registration hactive
  have halive : (rules urls i a identity).Assures (fun _ v' => Quiet i a [] v v')
      (keepAlive registration.lease) v := by
    apply post_quiet rfl
    intro v₁ hbefore
    rw [Permitted, hbefore.1]
    exact ⟨registration, hactive, rfl, hlive⟩
  apply Conduct.Assures.bind halive
  · intro alive v₁ hv₁
    split
    · apply (owns_assures registration.wire (hgranted.quiet hv₁)).mono
      rintro r v₂ ⟨hv₂, hholds⟩
      exact ⟨hv₁.trans hv₂, hholds⟩
    · apply return_assures
      intro v₂ hwaits
      refine ⟨hv₁.waits hwaits, ?_⟩
      rintro ⟨⟩
  · intro e v₁ hv₁
    apply throw_assures
    intro v₂ hwaits
    refine ⟨hv₁.waits hwaits, ?_⟩
    rintro ⟨⟩

/-- A registration is found, restored, or given up; a failure changes nothing. -/
theorem renew_assures (hactive : v.active = some registration) (hsound : Sound i identity v) :
  (rules urls i a identity).Assures
    (fun r v' =>
      (r = .ok .owned → Renewed i a registration v v' ∨ Quiet i a [] v v' ∧
        Holds i registration.wire.value registration.lease v'.server) ∧
      (r = .ok .finished → v'.active = none ∧ Later i a [] v.server v'.server) ∧
      ∀ e, r = .error e → Quiet i a [] v v')
    (renew registration) v
  := by
  obtain ⟨hgranted, -⟩ := hsound registration hactive
  apply Conduct.Assures.bind (stillOwns_assures hactive hsound)
  · rintro owned v₂ ⟨hv₂, hholds⟩
    split
    · rename_i hfound
      apply return_assures
      intro v₃ hwaits
      refine ⟨fun _ => .inr ⟨hv₂.waits hwaits, ?_⟩, ?_, ?_⟩
      · rw [hfound] at hholds
        exact (hholds rfl).others (hgranted.quiet hv₂) hwaits.2
      · rintro ⟨⟩
      · rintro _ ⟨⟩
    · have hactive₂ : v₂.active = some registration := by
        rw [hv₂.1]
        exact hactive
      apply Conduct.Assures.bind (restoreExpired_assures hactive₂)
      · rintro restored v₃ ⟨hrenewed, hkept⟩
        split
        · rename_i hrestored
          rw [hrestored] at hrenewed
          apply return_assures
          intro v₄ hwaits
          refine ⟨fun _ => .inl ?_, ?_, ?_⟩
          · exact ((hrenewed rfl).interferes hwaits).quiet hv₂
          · rintro ⟨⟩
          · rintro _ ⟨⟩
        · rename_i hlost
          have hv₃ : Quiet i a [] v v₃ := hv₂.trans (hkept (by simpa using hlost))
          have hactive₃ : v₃.active = some registration := by
            rw [hv₃.1]
            exact hactive
          apply Conduct.Assures.bind (deactivate_assures hactive₃)
          · rintro _ v₄ ⟨-, hnone, hlater⟩
            apply return_assures
            intro v₅ hwaits
            refine ⟨?_, fun _ => ⟨?_, ?_⟩, ?_⟩
            · rintro ⟨⟩
            · rw [hwaits.1]
              exact hnone
            · exact (hv₃.2.trans hlater).trans (hwaits.2.later a)
            · rintro _ ⟨⟩
          · rintro _ v₄ ⟨hr, -⟩
            cases hr
      · rintro e v₃ ⟨-, hkept⟩
        have hv₃ : Quiet i a [] v v₃ := hv₂.trans (hkept (by simp))
        apply throw_assures
        intro v₄ hwaits
        refine ⟨?_, ?_, fun _ _ => hv₃.waits hwaits⟩
        · rintro ⟨⟩
        · rintro ⟨⟩
  · rintro e v₂ ⟨hv₂, -⟩
    apply throw_assures
    intro v₃ hwaits
    refine ⟨?_, ?_, fun _ _ => hv₂.waits hwaits⟩
    · rintro ⟨⟩
    · rintro ⟨⟩

/-- A registration that was given a new lease is sound. -/
theorem Renewed.post (h : Renewed i a registration v v') (kind : Kind urls)
    (found : Option (ActiveRegistration urls))
    (hfresh : ∀ g ∈ v.server.grants, g.manager = i → g.operation ≠ a)
    (hactive : v.active = some registration) (hsound : Sound i identity v) :
  Post i a identity kind found (.ok .owned) v'
  := by
  obtain ⟨-, hlive, hloops⟩ := hsound registration hactive
  obtain ⟨lease, hview, hlater, hgranted, hholds⟩ := h
  have hactive' : v'.active = some { registration with lease := lease } := by rw [hview]
  constructor
  case accounted =>
    apply accounted_of_later hfresh hlater
    intro x hx
    rw [List.mem_singleton.mp hx, hview]
    exact List.mem_cons_self
  case sound =>
    intro r hr
    rw [hactive'] at hr
    cases hr
    refine ⟨hgranted, ?_, ?_⟩
    · rw [hview]
      exact hlive
    · rw [hview]
      exact hloops
  case rejected =>
    rintro _ _ ⟨⟩
  case owned =>
    intro _
    exact ⟨_, hactive', hholds⟩

theorem heartbeat_assures (registration : ℕ)
    (hfresh : ∀ g ∈ v.server.grants, g.manager = i → g.operation ≠ a)
    (hsound : Sound i identity v) :
  (rules urls i a identity).Assures (Post i a identity (.heartbeat registration) v.active)
    (heartbeat registration) v
  := by
  apply Conduct.Assures.bind active_assures
  · rintro _ v₀ ⟨⟨⟩, hv₀⟩
    apply Conduct.Assures.bind (aborted_assures registration)
    · rintro aborted v₁ ⟨haborted, hwaits⟩
      have hv₁ : Quiet i a [] v v₁ := (hv₀.trans hwaits).quiet a
      have hsound₁ := hsound.quiet hv₁
      have hactive₁ : v₁.active = v.active := by rw [hv₁.1]
      have hkept : (rules urls i a identity).Assures
          (Post i a identity (.heartbeat registration) v.active)
          (return .finished : Call urls Settled) v₁ := by
        apply return_assures
        intro v₂ hwaits'
        apply post_of_quiet hfresh hsound (hv₁.waits hwaits')
        rintro ⟨⟩
      split
      · exact hkept
      · rename_i active hactive
        rw [hactive] at hactive₁
        split
        · exact hkept
        · apply Conduct.Assures.tryCatch (renew_assures hactive₁ hsound₁)
          · rintro settled v₂ ⟨howned, hfinished, -⟩
            apply return_assures
            intro v₃ hwaits'
            have hpost : Post i a identity (.heartbeat registration) v.active (.ok settled)
                v₂ := by
              cases settled with
              | owned =>
                  obtain hrenewed | ⟨hv₂, hholds⟩ := howned rfl
                  · exact (hrenewed.quiet hv₁).post _ _ hfresh hactive hsound
                  · have hquiet : Quiet i a [] v v₂ := hv₁.trans hv₂
                    apply post_of_quiet hfresh hsound hquiet
                    intro _
                    refine ⟨active, ?_, hholds⟩
                    rw [hquiet.1]
                    exact hactive
              | finished =>
                  obtain ⟨hnone, hlater⟩ := hfinished rfl
                  exact post_of_none _ _ hfresh (hv₁.2.trans hlater) hnone
            exact hpost.interferes hwaits'
          · rintro e v₂ ⟨-, -, hfailed⟩
            have hv₂ : Quiet i a [] v v₂ := hv₁.trans (hfailed e rfl)
            have hactive₂ : v₂.active = some active := by
              rw [hv₂.1]
              exact hactive
            split
            · apply return_assures
              intro v₃ hwaits'
              apply post_of_quiet hfresh hsound (hv₂.waits hwaits')
              rintro ⟨⟩
            · rename_i hdifferent _
              have hid : registration = active.id := by
                by_contra hne
                exact hdifferent (.inl (Ne.symm hne))
              rw [hid]
              apply Conduct.Assures.bind (deactivate_assures hactive₂)
              · rintro _ v₃ ⟨-, hnone, hlater⟩
                apply return_assures
                intro v₄ hwaits'
                exact (post_of_none _ _ hfresh (hv₂.2.trans hlater) hnone).interferes hwaits'
              · rintro _ v₃ ⟨hr, -⟩
                cases hr
    · rintro _ v₁ ⟨hr, -⟩
      cases hr
  · rintro _ v₀ ⟨hr, -⟩
    cases hr

/-- Every operation keeps to its rules. -/
theorem program_assures (kind : Kind urls)
    (hfresh : ∀ g ∈ v.server.grants, g.manager = i → g.operation ≠ a)
    (hsound : Sound i identity v) :
  (rules urls i a identity).Assures (Post i a identity kind v.active) (program kind) v
  := by
  cases kind with
  | register wire => exact register_assures wire hfresh hsound
  | deregister wire => exact deregister_assures wire hfresh hsound
  | heartbeat registration => exact heartbeat_assures registration hfresh hsound

end Registry.Etcd
