import GoLike.Lib.Conduct
import GoLike.Registry.Etcd.Registration

/-!
# The rules of registration operations

An operation that has its turn is the only one of its manager that changes the state of the
identity and asks for leases. The rules below say what it may send, and what the others may
do meanwhile. Every operation keeps to them, and accounts for the leases it receives: each
one is made the lease of the active registration, or its revocation is asked for.
-/

open Store Interleave

namespace Registry.Etcd

variable {urls : UrlParser} {ι : Type}

/-! ### What happens at the server -/

/-- The lease was granted to the manager. -/
def Granted (i : ι) (s : Server ι) (lease : ℕ) : Prop := ∃ g ∈ s.grants, g.lease = lease ∧ g.manager = i

/-- What others do while an operation of a manager has its turn. A row under a lease of the
manager stays when there are no other managers, unless its lease ends. -/
structure Others (i : ι) (s s' : Server ι) : Prop where
  grants : s.grants ⊆ s'.grants
  own : ∀ g ∈ s'.grants, g.manager = i → g ∈ s.grants
  revocations : s.revocations ⊆ s'.revocations
  leases : ∀ lease, Granted i s lease → lease ∈ s'.leases → lease ∈ s.leases
  row : (∀ j : ι, j = i) → ∀ row, s.row = some row → Granted i s row.lease →
    s'.row = some row ∨ row.lease ∉ s'.leases

/-- What happens while an operation runs. The leases that it receives are revoked, except for
those that are pending. -/
structure Later (i : ι) (a : ℕ) (pending : List ℕ) (s s' : Server ι) : Prop where
  grants : s.grants ⊆ s'.grants
  revocations : s.revocations ⊆ s'.revocations
  received : ∀ g ∈ s'.grants, g.manager = i → g.operation = a → g.answered = true →
    g ∈ s.grants ∨ g.lease ∈ s'.revocations ∨ g.lease ∈ pending

variable {i : ι} {s s' : Server ι} {lease : ℕ}

theorem Granted.mono (h : Granted i s lease) (hgrants : s.grants ⊆ s'.grants) :
  Granted i s' lease
  := by
  obtain ⟨g, hg, hlease⟩ := h
  exact ⟨g, hgrants hg, hlease⟩

theorem Others.refl (i : ι) (s : Server ι) :
  Others i s s
  := ⟨List.Subset.refl _, fun _ hg _ => hg, List.Subset.refl _, fun _ _ h => h,
    fun _ _ hrow _ => .inl hrow⟩

theorem Others.trans {s'' : Server ι} (h : Others i s s') (h' : Others i s' s'') :
  Others i s s''
  := by
  constructor
  case grants => exact List.Subset.trans h.grants h'.grants
  case own =>
    intro g hg hi
    exact h.own g (h'.own g hg hi) hi
  case revocations => exact List.Subset.trans h.revocations h'.revocations
  case leases =>
    intro lease hgranted hlease
    exact h.leases lease hgranted (h'.leases lease (hgranted.mono h.grants) hlease)
  case row =>
    intro halone row hrow hgranted
    have hgranted' := hgranted.mono h.grants
    obtain hrow' | hended := h.row halone row hrow hgranted
    · exact h'.row halone row hrow' hgranted'
    · right
      intro hlease
      exact hended (h'.leases _ hgranted' hlease)

theorem Others.later (h : Others i s s') (a : ℕ) :
  Later i a [] s s'
  := ⟨h.grants, h.revocations, fun g hg hi _ _ => .inl (h.own g hg hi)⟩

variable {a : ℕ} {pending : List ℕ}

theorem Later.trans {pending' : List ℕ} {s'' : Server ι} (h : Later i a pending s s')
    (h' : Later i a pending' s' s'') :
  Later i a (pending ++ pending') s s''
  := by
  constructor
  case grants => exact List.Subset.trans h.grants h'.grants
  case revocations => exact List.Subset.trans h.revocations h'.revocations
  case received =>
    intro g hg hi ha hanswered
    obtain hg | hrevoked | hpending := h'.received g hg hi ha hanswered
    · obtain hg | hrevoked | hpending := h.received g hg hi ha hanswered
      · exact .inl hg
      · exact .inr (.inl (h'.revocations hrevoked))
      · exact .inr (.inr (List.mem_append_left _ hpending))
    · exact .inr (.inl hrevoked)
    · exact .inr (.inr (List.mem_append_right _ hpending))

/-- A pending lease has been revoked. -/
theorem Later.revoked (h : Later i a [lease] s s') (hrevoked : lease ∈ s'.revocations) :
  Later i a [] s s'
  := by
  refine ⟨h.grants, h.revocations, ?_⟩
  intro g hg hi ha hanswered
  obtain hg | hdone | hpending := h.received g hg hi ha hanswered
  · exact .inl hg
  · exact .inr (.inl hdone)
  · rw [List.mem_singleton.mp hpending]
    exact .inr (.inl hrevoked)

theorem grants_delete (s : Server ι) (i : ι) (value : JsonText) :
  (s.delete i value).grants = s.grants ∧ (s.delete i value).revocations = s.revocations
  := by
  rw [Server.delete]
  split
  · exact ⟨rfl, rfl⟩
  · split
    · exact ⟨rfl, rfl⟩
    · exact ⟨rfl, rfl⟩

theorem grants_put {value : JsonText} {r : Unit} (h : s.put i value lease = some (r, s')) :
  s'.grants = s.grants ∧ s'.revocations = s.revocations
  := by
  rw [Server.put] at h
  split at h
  · cases h
    exact ⟨rfl, rfl⟩
  · cases h

/-- A request asks for no lease. -/
def EtcdRequest.isGrant : EtcdRequest → Bool
  | .grantLease => true
  | _ => false

variable {q : EtcdRequest}

theorem grants_apply {answered : Bool} {r : EtcdReply q} (hq : q.isGrant = false)
    (h : s.apply i a answered q = some (r, s')) :
  s'.grants = s.grants ∧ s'.revocations = s.revocations
  := by
  cases q with
  | grantLease => cases hq
  | publish value lease => exact grants_put h
  | restore value lease =>
      rw [Server.apply] at h
      split at h
      · cases h
        exact ⟨rfl, rfl⟩
      · exact grants_put h
  | remove value =>
      cases h
      exact grants_delete s i value
  | range | keepAlive | revokeLease =>
      cases h
      exact ⟨rfl, rfl⟩

theorem grants_note (s : Server ι) (q : EtcdRequest) :
  (s.note q).grants = s.grants ∧ s.revocations ⊆ (s.note q).revocations
  := by
  cases q with
  | revokeLease lease => exact ⟨rfl, List.subset_cons_self _ _⟩
  | _ => exact ⟨rfl, List.Subset.refl _⟩

variable {applied : Bool}

/-- A request that asks for no lease grants none. -/
theorem EtcdServes.grants {r : Except Thrown (EtcdReply q)} (hq : q.isGrant = false)
    (h : EtcdServes i a applied q s r s') :
  s'.grants = s.grants ∧ (s.note q).revocations ⊆ s'.revocations
  := by
  obtain ⟨hgrants, -⟩ := grants_note s q
  cases h with
  | answered happly | lost e happly =>
      obtain ⟨hgrants', hrevocations⟩ := grants_apply hq happly
      rw [hgrants', hrevocations]
      exact ⟨hgrants, List.Subset.refl _⟩
  | failed e => exact ⟨hgrants, List.Subset.refl _⟩

theorem EtcdServes.later {r : Except Thrown (EtcdReply q)} (hq : q.isGrant = false)
    (h : EtcdServes i a applied q s r s') :
  Later i a [] s s'
  := by
  obtain ⟨hgrants, hrevocations⟩ := h.grants hq
  refine ⟨?_, List.Subset.trans (grants_note s q).2 hrevocations, ?_⟩
  · rw [hgrants]
    exact List.Subset.refl _
  · intro g hg _ _ _
    rw [hgrants] at hg
    exact .inl hg

/-- A lease that was received is pending. -/
theorem EtcdServes.received (h : EtcdServes i a applied .grantLease s (.ok lease) s') :
  Later i a [lease] s s' ∧ Granted i s' lease
  := by
  cases h with
  | answered happly =>
      cases happly
      refine ⟨⟨List.subset_cons_self _ _, List.Subset.refl _, ?_⟩, ?_⟩
      · intro g hg _ _ _
        obtain rfl | hg := List.mem_cons.mp hg
        · exact .inr (.inr (List.mem_singleton_self _))
        · exact .inl hg
      · exact ⟨_, List.mem_cons_self, rfl, rfl⟩

/-- No lease has been received when a request for a lease fails. -/
theorem EtcdServes.notReceived {e : Thrown}
    (h : EtcdServes i a applied .grantLease s (.error e) s') :
  Later i a [] s s'
  := by
  cases h with
  | lost e happly =>
      cases happly
      refine ⟨List.subset_cons_self _ _, List.Subset.refl _, ?_⟩
      intro g hg _ _ hanswered
      obtain rfl | hg := List.mem_cons.mp hg
      · cases hanswered
      · exact .inl hg
  | failed e => exact ⟨List.Subset.refl _, List.Subset.refl _, fun g hg _ _ _ => .inl hg⟩

/-! ### The rules -/

/-- A step of the others. -/
def Interferes (i : ι) (v v' : View urls ι) : Prop :=
  v' = { v with server := v'.server } ∧ Others i v.server v'.server

/-- The operation may send the request: it uses leases of its manager, keeps only the lease
of the active registration alive, and ends the owner of a registration with it. -/
def Permitted (i : ι) : Request urls → View urls ι → Prop
  | .etcd (.publish _ lease), v => Granted i v.server lease
  | .etcd (.restore _ lease), v => Granted i v.server lease
  | .etcd (.revokeLease lease), v => Granted i v.server lease
  | .etcd (.keepAlive lease), v =>
      ∃ r, v.active = some r ∧ r.lease = lease ∧ v.aborted r.id = false
  | .activate _ lease, v =>
      Granted i v.server lease ∧ ∀ r, v.active = some r → v.aborted r.id = true
  | .deactivate registration, v => ∃ r, v.active = some r ∧ r.id = registration
  | .setLease registration lease, v =>
      Granted i v.server lease ∧ ∃ r, v.active = some r ∧ r.id = registration
  | _, _ => True

variable (urls) in
/-- The rules of an operation of a manager, which works on a state of the identity. -/
def rules (i : ι) (a identity : ℕ) : Conduct (Request urls) Reply (View urls ι) where
  sends := Permitted i
  serves := fun q v r v' => ∃ applied, Serves i a identity applied q v r v'
  interferes := Interferes i

theorem Interferes.refl (i : ι) (v : View urls ι) :
  Interferes i v v
  := ⟨rfl, .refl i _⟩

variable {v v' v'' : View urls ι}

theorem Interferes.trans (h : Interferes i v v') (h' : Interferes i v' v'') :
  Interferes i v v''
  := by
  refine ⟨?_, h.2.trans h'.2⟩
  rw [h'.1, h.1]

theorem interferes_of_waits {identity : ℕ} (h : (rules urls i a identity).Waits v v') :
  Interferes i v v'
  := by
  induction h with
  | refl => exact .refl i v
  | tail _ hstep ih => exact ih.trans hstep

/-- Only the server has changed, while the operation was running. -/
def Quiet (i : ι) (a : ℕ) (pending : List ℕ) (v v' : View urls ι) : Prop :=
  v' = { v with server := v'.server } ∧ Later i a pending v.server v'.server

theorem Interferes.quiet (h : Interferes i v v') (a : ℕ) :
  Quiet i a [] v v'
  := ⟨h.1, h.2.later a⟩

theorem Quiet.trans {pending' : List ℕ} (h : Quiet i a pending v v')
    (h' : Quiet i a pending' v' v'') :
  Quiet i a (pending ++ pending') v v''
  := by
  refine ⟨?_, h.2.trans h'.2⟩
  rw [h'.1, h.1]

theorem Quiet.waits (h : Quiet i a pending v v') (h' : Interferes i v' v'') :
  Quiet i a pending v v''
  := by
  have htrans := h.trans (h'.quiet a)
  rw [List.append_nil] at htrans
  exact htrans

theorem Quiet.revoked (h : Quiet i a [lease] v v') (hrevoked : lease ∈ v'.server.revocations) :
  Quiet i a [] v v'
  := ⟨h.1, h.2.revoked hrevoked⟩

/-! ### Requests -/

section

variable {i : ι} {a identity : ℕ} {v : View urls ι}

variable {q : EtcdRequest}

/-- A request is sent to etcd, and the others may act before and after it is served. -/
theorem post_assures {K : Except Thrown (EtcdReply q) → View urls ι → Prop}
    (h : ∀ {v₁}, Interferes i v v₁ → Permitted i (.etcd q) v₁ ∧ ∀ {applied r server v₂}, EtcdServes i a applied q v₁.server r server → Interferes i { v₁ with server := server } v₂ → K r v₂) :
  (rules urls i a identity).Assures K (post q) v
  := by
  intro v₁ hwaits
  obtain ⟨hpermitted, hserved⟩ := h (interferes_of_waits hwaits)
  refine ⟨hpermitted, ?_⟩
  rintro r v₂ ⟨applied, hserves⟩
  cases hserves with
  | etcd hserves =>
      intro v₃ hwaits'
      exact hserved hserves (interferes_of_waits hwaits')

/-- A request of the state of the identity. -/
theorem ask_assures {q : Request urls} {K : Except Thrown (Reply q) → View urls ι → Prop}
    (h : ∀ {v₁}, Interferes i v v₁ → Permitted i q v₁ ∧
      ∀ {applied r v₂ v₃}, Serves i a identity applied q v₁ r v₂ → Interferes i v₂ v₃ → K (.ok r) v₃) :
  (rules urls i a identity).Assures K (ask q) v
  := by
  apply Conduct.assures_request
  intro v₁ hwaits
  obtain ⟨hpermitted, hserved⟩ := h (interferes_of_waits hwaits)
  refine ⟨hpermitted, ?_⟩
  rintro r v₂ v₃ ⟨applied, hserves⟩ hwaits'
  exact hserved hserves (interferes_of_waits hwaits')

variable {lease : ℕ}

theorem Granted.interferes {v' : View urls ι} (h : Granted i v.server lease)
    (hstep : Interferes i v v') :
  Granted i v'.server lease
  := h.mono hstep.2.grants

theorem Granted.quiet {pending : List ℕ} {v' : View urls ι} (h : Granted i v.server lease)
    (hquiet : Quiet i a pending v v') :
  Granted i v'.server lease
  := h.mono hquiet.2.grants

theorem EtcdServes.quiet {applied : Bool} (hq : q.isGrant = false) {v₁ v₂ : View urls ι}
    {r : Except Thrown (EtcdReply q)} {server : Server ι}
    (h : EtcdServes i a applied q v₁.server r server) (hbefore : Interferes i v v₁)
    (hafter : Interferes i { v₁ with server := server } v₂) :
  Quiet i a [] v v₂
  := by
  have hserved : Quiet i a [] v₁ { v₁ with server := server } := ⟨rfl, h.later hq⟩
  exact ((hbefore.quiet a).trans hserved).waits hafter

theorem post_quiet (hq : q.isGrant = false)
    (hpermitted : ∀ {v₁}, Interferes i v v₁ → Permitted i (.etcd q) v₁) :
  (rules urls i a identity).Assures (fun _ v' => Quiet i a [] v v') (post q) v
  := by
  apply post_assures
  intro v₁ hbefore
  refine ⟨hpermitted hbefore, ?_⟩
  intro applied r server v₂ hserves hafter
  exact hserves.quiet hq hbefore hafter

theorem return_assures {α : Type} {x : α} {K : Except Thrown α → View urls ι → Prop}
    (h : ∀ {v₁}, Interferes i v v₁ → K (.ok x) v₁) :
  (rules urls i a identity).Assures K (pure x) v
  := by
  apply Conduct.assures_pure
  intro v₁ hwaits
  exact h (interferes_of_waits hwaits)

theorem throw_assures {α : Type} {e : Thrown} {K : Except Thrown α → View urls ι → Prop}
    (h : ∀ {v₁}, Interferes i v v₁ → K (.error e) v₁) :
  (rules urls i a identity).Assures K (throw e) v
  := by
  apply Conduct.assures_throw
  intro v₁ hwaits
  exact h (interferes_of_waits hwaits)

/-! ### Transactions -/

theorem transact_quiet (hq : q.isGrant = false)
    (hpermitted : ∀ {v₁}, Interferes i v v₁ → Permitted i (.etcd q) v₁) :
  (rules urls i a identity).Assures (fun _ v' => Quiet i a [] v v') (transact q) v
  := by
  have hpost : (rules urls i a identity).Assures (fun _ v' => Quiet i a [] v v')
      (do
        let _ ← post q
        return none : Call urls (Option Thrown)) v := by
    apply Conduct.Assures.bind (post_quiet hq hpermitted)
    · intro _ v' hv'
      exact return_assures hv'.waits
    · intro e v' hv'
      exact throw_assures hv'.waits
  apply Conduct.Assures.tryCatch hpost
  · intro _ v' hv'
    exact return_assures hv'.waits
  · intro e v' hv'
    split
    · exact return_assures hv'.waits
    · exact throw_assures hv'.waits

/-- When there are no other managers, the key holds the record under the lease, unless the
lease has ended. -/
def Holds (i : ι) (value : JsonText) (lease : ℕ) (s : Server ι) : Prop :=
  (∀ j : ι, j = i) →
    (∃ row, s.row = some row ∧ row.value = value ∧ row.lease = lease) ∨ lease ∉ s.leases

theorem Holds.others {value : JsonText} {s s' : Server ι} (h : Holds i value lease s)
    (hgranted : Granted i s lease) (hothers : Others i s s') :
  Holds i value lease s'
  := by
  intro halone
  obtain ⟨row, hrow, hvalue, rfl⟩ | hended := h halone
  · obtain hrow' | hended := hothers.row halone row hrow hgranted
    · exact .inl ⟨row, hrow', hvalue, rfl⟩
    · exact .inr hended
  · right
    intro hlease
    exact hended (hothers.leases lease hgranted hlease)

/-- What is read from the key is there. -/
theorem EtcdServes.holds {s s' : Server ι} {applied : Bool} {value : JsonText}
    (h : EtcdServes i a applied .range s (.ok (some (value, lease))) s') :
  Holds i value lease s'
  := by
  cases h with
  | answered happly =>
      cases hrow : s.row with
      | none => simp [Server.note, Server.apply, hrow] at happly
      | some row =>
          simp only [Server.note, Server.apply, hrow, Option.map_some, Option.some.injEq,
            Prod.mk.injEq] at happly
          obtain ⟨⟨rfl, rfl⟩, rfl⟩ := happly
          intro _
          exact .inl ⟨row, hrow, rfl, rfl⟩

theorem owns_assures (record : EncodedRecord urls) (hgranted : Granted i v.server lease) :
  (rules urls i a identity).Assures
    (fun r v' => Quiet i a [] v v' ∧
      (r = .ok true → Holds i record.value lease v'.server))
    (owns record lease) v
  := by
  have hrange : (rules urls i a identity).Assures
      (fun (r : Except Thrown (Option (JsonText × ℕ))) v' => Quiet i a [] v v' ∧
        (r = .ok (some (record.value, lease)) → Holds i record.value lease v'.server))
      (post .range) v := by
    apply post_assures
    intro v₁ hbefore
    refine ⟨trivial, ?_⟩
    intro applied r server v₂ hserves hafter
    refine ⟨hserves.quiet rfl hbefore hafter, ?_⟩
    rintro rfl
    have hgranted' : Granted i server lease :=
      (hgranted.interferes hbefore).mono (hserves.later rfl).grants
    exact hserves.holds.others hgranted' hafter.2
  apply Conduct.Assures.bind hrange
  · rintro row v' ⟨hv', hholds⟩
    apply return_assures
    intro v'' hwaits
    refine ⟨hv'.waits hwaits, ?_⟩
    intro hfound
    have hrow : row = some (record.value, lease) := by simpa using hfound
    have hgranted' := hgranted.quiet hv'
    rw [hrow] at hholds
    exact (hholds rfl).others hgranted' hwaits.2
  · rintro e v' ⟨hv', -⟩
    apply throw_assures
    intro v'' hwaits
    exact ⟨hv'.waits hwaits, nofun⟩

theorem publish_quiet (record : EncodedRecord urls) (hgranted : Granted i v.server lease) :
  (rules urls i a identity).Assures (fun _ v' => Quiet i a [] v v') (publish record lease) v
  := by
  have htransact : (rules urls i a identity).Assures (fun _ v' => Quiet i a [] v v')
      (transact (.publish record.value lease)) v :=
    transact_quiet rfl hgranted.interferes
  apply Conduct.Assures.bind htransact
  · intro uncertain v' hv'
    apply Conduct.Assures.bind (owns_assures record (hgranted.quiet hv'))
    · rintro found v'' ⟨hv'', -⟩
      have hquiet : Quiet i a [] v v'' := hv'.trans hv''
      split
      · exact return_assures hquiet.waits
      · split
        · exact throw_assures hquiet.waits
        · exact throw_assures hquiet.waits
    · rintro e v'' ⟨hv'', -⟩
      have hquiet : Quiet i a [] v v'' := hv'.trans hv''
      exact throw_assures hquiet.waits
  · intro e v' hv'
    exact throw_assures hv'.waits

/-- A record that is restored is found under its lease. -/
theorem restore_assures (record : EncodedRecord urls) (hgranted : Granted i v.server lease) :
  (rules urls i a identity).Assures
    (fun r v' => Quiet i a [] v v' ∧
      (r = .ok true → Holds i record.value lease v'.server))
    (restore record lease) v
  := by
  have htransact : (rules urls i a identity).Assures (fun _ v' => Quiet i a [] v v')
      (transact (.restore record.value lease)) v :=
    transact_quiet rfl hgranted.interferes
  apply Conduct.Assures.bind htransact
  · intro uncertain v' hv'
    apply Conduct.Assures.bind (owns_assures record (hgranted.quiet hv'))
    · rintro found v'' ⟨hv'', hholds⟩
      have hquiet : Quiet i a [] v v'' := hv'.trans hv''
      split
      · rename_i hfound
        apply return_assures
        intro v₁ hwaits
        refine ⟨hquiet.waits hwaits, fun _ => ?_⟩
        rw [hfound] at hholds
        exact (hholds rfl).others (hgranted.quiet hquiet) hwaits.2
      · split
        · apply throw_assures
          intro v₁ hwaits
          exact ⟨hquiet.waits hwaits, nofun⟩
        · apply return_assures
          intro v₁ hwaits
          exact ⟨hquiet.waits hwaits, nofun⟩
    · rintro e v'' ⟨hv'', -⟩
      have hquiet : Quiet i a [] v v'' := hv'.trans hv''
      apply throw_assures
      intro v₁ hwaits
      exact ⟨hquiet.waits hwaits, nofun⟩
  · intro e v' hv'
    apply throw_assures
    intro v₁ hwaits
    exact ⟨hv'.waits hwaits, nofun⟩

theorem remove_quiet (record : EncodedRecord urls) :
  (rules urls i a identity).Assures (fun _ v' => Quiet i a [] v v') (remove record) v
  := by
  have htransact : (rules urls i a identity).Assures (fun _ v' => Quiet i a [] v v')
      (transact (.remove record.value)) v :=
    transact_quiet rfl (fun _ => trivial)
  apply Conduct.Assures.bind htransact
  · intro uncertain v' hv'
    have hrange : (rules urls i a identity).Assures (fun _ v'' => Quiet i a [] v' v'')
        (post .range) v' :=
      post_quiet rfl (fun _ => trivial)
    apply Conduct.Assures.bind hrange
    · intro row v'' hv''
      have hquiet : Quiet i a [] v v'' := hv'.trans hv''
      split
      · exact return_assures hquiet.waits
      · split
        · exact return_assures hquiet.waits
        · split
          · exact throw_assures hquiet.waits
          · exact throw_assures hquiet.waits
    · intro e v'' hv''
      have hquiet : Quiet i a [] v v'' := hv'.trans hv''
      exact throw_assures hquiet.waits
  · intro e v' hv'
    exact throw_assures hv'.waits

/-- A lease is retired: its revocation is asked for. -/
theorem retire_assures (hgranted : Granted i v.server lease) :
  (rules urls i a identity).Assures
    (fun r v' => r = .ok () ∧ Quiet i a [] v v' ∧ lease ∈ v'.server.revocations)
    (retire lease) v
  := by
  have hrevoke : (rules urls i a identity).Assures
      (fun _ v' => Quiet i a [] v v' ∧ lease ∈ v'.server.revocations)
      (revokeLease lease) v := by
    apply post_assures
    intro v₁ hbefore
    refine ⟨hgranted.interferes hbefore, ?_⟩
    intro applied r server v₂ hserves hafter
    refine ⟨hserves.quiet rfl hbefore hafter, ?_⟩
    apply hafter.2.revocations
    exact (hserves.grants rfl).2 List.mem_cons_self
  apply Conduct.Assures.tryCatch hrevoke
  · rintro _ v' ⟨hv', hrevoked⟩
    apply return_assures
    intro v'' hwaits
    exact ⟨rfl, hv'.waits hwaits, hwaits.2.revocations hrevoked⟩
  · rintro e v' ⟨hv', hrevoked⟩
    apply return_assures
    intro v'' hwaits
    exact ⟨rfl, hv'.waits hwaits, hwaits.2.revocations hrevoked⟩

end

end Registry.Etcd
