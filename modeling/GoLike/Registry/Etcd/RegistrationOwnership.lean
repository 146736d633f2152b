import GoLike.Registry.Etcd.RegistrationRuns
import GoLike.Registry.Etcd.RegistrationTurns

/-!
# The ownership of etcd registrations

In every run of registration managers, each manager serializes the operations of the
identity, keeps at most one registration active, and renews only its lease. The leases that
operations receive are adopted or revoked, and a heartbeat that finds or restores its
registration leaves the record in the key.
-/

open Store Interleave Relation

namespace Registry.Etcd

variable {urls : UrlParser} {ι : Type}

/-! ### The server -/

/-- Leases were granted in order, each one once, and the row is held by a lease of its
publisher. -/
structure Consistent (s : Server ι) : Prop where
  bounded : ∀ g ∈ s.grants, g.lease < s.granted
  alive : ∀ lease ∈ s.leases, lease < s.granted
  unique : ∀ g ∈ s.grants, ∀ g' ∈ s.grants, g.lease = g'.lease → g.manager = g'.manager
  row : ∀ row, s.row = some row → Granted row.publisher s row.lease

variable {s : Server ι} {i : ι} {lease : ℕ}

theorem Granted.bounded (h : Consistent s) (hgranted : Granted i s lease) :
  lease < s.granted
  := by
  obtain ⟨g, hg, rfl, -⟩ := hgranted
  exact h.bounded g hg

variable {j : ι}

/-- A lease was granted to one manager only. -/
theorem Granted.unique (h : Consistent s) (hi : Granted i s lease) (hj : Granted j s lease) :
  i = j
  := by
  obtain ⟨g, hg, hlease, rfl⟩ := hi
  obtain ⟨g', hg', hlease', rfl⟩ := hj
  exact h.unique g hg g' hg' (hlease.trans hlease'.symm)

variable {s' : Server ι}

/-- A step that grants no lease, and keeps the row or puts one under a lease of its
publisher. -/
theorem Consistent.of_grants (h : Consistent s) (hgrants : s'.grants = s.grants)
    (hgranted : s'.granted = s.granted) (hleases : s'.leases ⊆ s.leases)
    (hrow : ∀ row, s'.row = some row → s.row = some row ∨ Granted row.publisher s row.lease) :
  Consistent s'
  := by
  constructor
  case bounded =>
    rw [hgrants, hgranted]
    exact h.bounded
  case alive =>
    intro lease hlease
    rw [hgranted]
    exact h.alive lease (hleases hlease)
  case unique =>
    rw [hgrants]
    exact h.unique
  case row =>
    intro row hrow'
    rw [Granted, hgrants]
    obtain hold | hnew := hrow row hrow'
    · exact h.row row hold
    · exact hnew

theorem Consistent.withoutLease (h : Consistent s) (lease : ℕ) :
  Consistent (s.withoutLease lease)
  := by
  refine h.of_grants rfl rfl ?_ ?_
  · exact List.filter_subset_self _
  · intro row hrow
    simp only [Server.withoutLease, Option.filter_eq_some_iff] at hrow
    exact .inl hrow.1

theorem Consistent.note (h : Consistent s) (q : EtcdRequest) :
  Consistent (s.note q)
  := by
  cases q with
  | revokeLease lease => exact ⟨h.bounded, h.alive, h.unique, h.row⟩
  | _ => exact h

theorem Consistent.put (h : Consistent s) {value : JsonText} {r : Unit}
    (hgranted : Granted i s lease) (hput : s.put i value lease = some (r, s')) :
  Consistent s'
  := by
  rw [Server.put] at hput
  split at hput
  · cases hput
    refine h.of_grants rfl rfl (List.Subset.refl _) ?_
    rintro _ ⟨⟩
    exact .inr hgranted
  · cases hput

theorem Consistent.delete (h : Consistent s) (i : ι) (value : JsonText) :
  Consistent (s.delete i value)
  := by
  rw [Server.delete]
  split
  · exact h
  · split
    · refine h.of_grants rfl rfl (List.Subset.refl _) ?_
      rintro _ ⟨⟩
    · exact h

theorem Consistent.grant (h : Consistent s) (i : ι) (a : ℕ) (answered : Bool) :
  Consistent
    { s with
      leases := s.granted :: s.leases
      granted := s.granted + 1
      grants := ⟨s.granted, i, a, answered⟩ :: s.grants }
  := by
  constructor
  case bounded =>
    intro g hg
    obtain rfl | hg := List.mem_cons.mp hg
    · exact Nat.lt_succ_self _
    · exact (h.bounded g hg).trans (Nat.lt_succ_self _)
  case alive =>
    intro lease hlease
    obtain rfl | hlease := List.mem_cons.mp hlease
    · exact Nat.lt_succ_self _
    · exact (h.alive lease hlease).trans (Nat.lt_succ_self _)
  case unique =>
    intro g hg g' hg' heq
    obtain rfl | hg := List.mem_cons.mp hg
    · obtain rfl | hg' := List.mem_cons.mp hg'
      · rfl
      · exact absurd heq (h.bounded g' hg').ne'
    · obtain rfl | hg' := List.mem_cons.mp hg'
      · exact absurd heq (h.bounded g hg).ne
      · exact h.unique g hg g' hg' heq
  case row =>
    intro row hrow
    exact (h.row row hrow).mono (List.subset_cons_self _ _)

variable {a : ℕ} {q : EtcdRequest} {v : View urls ι}

theorem Consistent.apply (h : Consistent s) {answered : Bool} {r : EtcdReply q}
    (hgrants : v.server.grants = s.grants) (hpermitted : Permitted i (.etcd q) v)
    (happly : s.apply i a answered q = some (r, s')) :
  Consistent s'
  := by
  have hgranted : ∀ {lease}, Granted i v.server lease → Granted i s lease := by
    intro lease hlease
    exact hlease.mono (hgrants ▸ List.Subset.refl _)
  cases q with
  | grantLease =>
      cases happly
      exact h.grant i a answered
  | publish value lease => exact h.put (hgranted hpermitted) happly
  | restore value lease =>
      rw [Server.apply] at happly
      split at happly
      · cases happly
        exact h
      · exact h.put (hgranted hpermitted) happly
  | remove value =>
      cases happly
      exact h.delete i value
  | range | keepAlive =>
      cases happly
      exact h
  | revokeLease lease =>
      cases happly
      exact h.withoutLease lease

variable {applied : Bool}

theorem Consistent.serves (h : Consistent v.server) {r : Except Thrown (EtcdReply q)}
    (hpermitted : Permitted i (.etcd q) v) (hserves : EtcdServes i a applied q v.server r s') :
  Consistent s'
  := by
  have hgrants := (grants_note v.server q).1.symm
  cases hserves with
  | answered happly | lost e happly => exact (h.note q).apply hgrants hpermitted happly
  | failed e => exact h.note q

/-! ### What managers do to each other -/

theorem others_withoutLease (i : ι) (s : Server ι) (lease : ℕ) :
  Others i s (s.withoutLease lease)
  := by
  refine ⟨List.Subset.refl _, fun _ hg _ => hg, List.Subset.refl _, ?_, ?_⟩
  · intro _ _ hlease
    exact List.mem_of_mem_filter hlease
  · intro _ row hrow _
    by_cases hrowLease : row.lease = lease
    · right
      simp [Server.withoutLease, hrowLease]
    · left
      simp [Server.withoutLease, hrow, hrowLease]

/-- What happens at the server when another manager is served. -/
theorem others_of_ne (hne : j ≠ i) (hgrants : s.grants ⊆ s'.grants)
    (hown : ∀ g ∈ s'.grants, g ∈ s.grants ∨ g.manager = j)
    (hrevocations : s.revocations ⊆ s'.revocations)
    (hleases : ∀ lease, Granted i s lease → lease ∈ s'.leases → lease ∈ s.leases) :
  Others i s s'
  := by
  refine ⟨hgrants, ?_, hrevocations, hleases, ?_⟩
  · intro g hg hi
    obtain hg | hj := hown g hg
    · exact hg
    · exact absurd (hj.symm.trans hi) hne
  · intro halone
    exact absurd (halone j) hne

theorem others_put (hne : j ≠ i) {value : JsonText} {r : Unit}
    (h : s.put j value lease = some (r, s')) :
  Others i s s'
  := by
  rw [Server.put] at h
  split at h
  · cases h
    exact others_of_ne hne (List.Subset.refl _) (fun _ hg => .inl hg) (List.Subset.refl _)
      (fun _ _ hlease => hlease)
  · cases h

theorem others_delete (hne : j ≠ i) (s : Server ι) (value : JsonText) :
  Others i s (s.delete j value)
  := by
  rw [Server.delete]
  split
  · exact .refl i s
  · split
    · exact others_of_ne hne (List.Subset.refl _) (fun _ hg => .inl hg) (List.Subset.refl _)
        (fun _ _ hlease => hlease)
    · exact .refl i s

theorem others_apply (hne : j ≠ i) (h : Consistent s) {answered : Bool} {r : EtcdReply q}
    (happly : s.apply j a answered q = some (r, s')) :
  Others i s s'
  := by
  cases q with
  | grantLease =>
      cases happly
      refine others_of_ne hne (List.subset_cons_self _ _) ?_ (List.Subset.refl _) ?_
      · intro g hg
        obtain rfl | hg := List.mem_cons.mp hg
        · exact .inr rfl
        · exact .inl hg
      · intro lease hgranted hlease
        obtain rfl | hlease := List.mem_cons.mp hlease
        · exact absurd (hgranted.bounded h) (lt_irrefl _)
        · exact hlease
  | publish value lease => exact others_put hne happly
  | restore value lease =>
      rw [Server.apply] at happly
      split at happly
      · cases happly
        exact .refl i s
      · exact others_put hne happly
  | remove value =>
      cases happly
      exact others_delete hne s value
  | range | keepAlive =>
      cases happly
      exact .refl i s
  | revokeLease lease =>
      cases happly
      exact others_withoutLease i s lease

theorem others_note (i : ι) (s : Server ι) (q : EtcdRequest) :
  Others i s (s.note q)
  := by
  cases q with
  | revokeLease lease =>
      exact ⟨List.Subset.refl _, fun _ hg _ => hg, List.subset_cons_self _ _,
        fun _ _ hlease => hlease, fun _ _ hrow _ => .inl hrow⟩
  | _ => exact .refl i s

/-- A request of a manager is a step of the others for every other manager. -/
theorem EtcdServes.others (hne : j ≠ i) (h : Consistent s) {r : Except Thrown (EtcdReply q)}
    (hserves : EtcdServes j a applied q s r s') :
  Others i s s'
  := by
  have hnote := others_note i s q
  cases hserves with
  | answered happly | lost e happly => exact hnote.trans (others_apply hne (h.note q) happly)
  | failed e => exact hnote

/-! ### Requests -/

theorem kept_grant (i : ι) (a : ℕ) {g : Grant ι} {grants : List (Grant ι)}
    (hmanager : g.manager = i) (hoperation : g.operation = a) :
  ∀ g' ∈ g :: grants, g' ∈ grants ∨ g'.manager = i ∧ g'.operation = a
  := by
  intro g' hg'
  obtain rfl | hg' := List.mem_cons.mp hg'
  · exact .inr ⟨hmanager, hoperation⟩
  · exact .inl hg'

/-- Leases are granted to the operation that is served. -/
theorem EtcdServes.kept {r : Except Thrown (EtcdReply q)} (h : EtcdServes i a applied q s r s') :
  s.revocations ⊆ s'.revocations ∧
    ∀ g ∈ s'.grants, g ∈ s.grants ∨ g.manager = i ∧ g.operation = a
  := by
  cases hgrant : q.isGrant with
  | false =>
      obtain ⟨hgrants, hrevocations⟩ := h.grants hgrant
      refine ⟨List.Subset.trans (grants_note _ _).2 hrevocations, ?_⟩
      intro g hg
      left
      rw [← hgrants]
      exact hg
  | true =>
      cases q with
      | grantLease =>
          cases h with
          | answered happly | lost e happly =>
              cases happly
              exact ⟨List.Subset.refl _, kept_grant i a rfl rfl⟩
          | failed e => exact ⟨List.Subset.refl _, fun _ hg => .inl hg⟩
      | _ => cases hgrant

variable {identity : ℕ}

/-- What a request changes for the operations that have settled. -/
theorem Serves.kept {q : Request urls} {v' : View urls ι} {r : Reply q}
    (h : Serves i a identity applied q v r v') :
  v.adopted ⊆ v'.adopted ∧ v.server.revocations ⊆ v'.server.revocations ∧
    ∀ g ∈ v'.server.grants, g ∈ v.server.grants ∨ g.manager = i ∧ g.operation = a
  := by
  cases h with
  | etcd hserves => exact ⟨List.Subset.refl _, hserves.kept⟩
  | activate | setLease =>
      exact ⟨List.subset_cons_self _ _, List.Subset.refl _, fun _ hg => .inl hg⟩
  | _ => exact ⟨List.Subset.refl _, List.Subset.refl _, fun _ hg => .inl hg⟩

/-- The heartbeats of a registration that is not active have been stopped. -/
theorem Serves.loops {q : Request urls} {v' : View urls ι} {r : Reply q}
    (h : Serves i a identity applied q v r v') (hpermitted : Permitted i q v)
    (hloops : ∀ registration, v.loops registration = some identity → v.aborted registration = false → ∃ r, v.active = some r ∧ r.id = registration) :
  (∀ registration, v'.loops registration = some identity → v'.aborted registration = false →
    ∃ r, v'.active = some r ∧ r.id = registration) ∧
  ∀ registration e, e ≠ identity → v'.loops registration = some e →
    v'.aborted registration = false →
    v.loops registration = some e ∧ v.aborted registration = false
  := by
  cases h with
  | abort =>
      rename_i ended
      have hopen : ∀ {registration}, Function.update v.aborted ended true registration = false →
          v.aborted registration = false := by
        intro registration haborted
        by_cases hid : registration = ended
        · subst hid
          simp at haborted
        · rw [Function.update_of_ne hid] at haborted
          exact haborted
      constructor
      · intro registration hloop haborted
        exact hloops registration hloop (hopen haborted)
      · intro registration e _ hloop haborted
        exact ⟨hloop, hopen haborted⟩
  | activate =>
      constructor
      · intro registration hloop haborted
        dsimp only at hloop haborted
        by_cases hid : registration = a
        · subst hid
          exact ⟨_, rfl, rfl⟩
        · rw [Function.update_of_ne hid] at hloop haborted
          obtain ⟨r, hactive, rfl⟩ := hloops registration hloop haborted
          rw [hpermitted.2 r hactive] at haborted
          cases haborted
      · intro registration e he hloop haborted
        dsimp only at hloop haborted
        have hid : registration ≠ a := by
          rintro rfl
          rw [Function.update_self] at hloop
          cases hloop
          exact he rfl
        rw [Function.update_of_ne hid] at hloop haborted
        exact ⟨hloop, haborted⟩
  | deactivate =>
      rename_i ended
      obtain ⟨r, hactive, rfl⟩ := hpermitted
      constructor
      · intro registration hloop haborted
        dsimp only at hloop haborted
        by_cases hid : registration = r.id
        · subst hid
          simp at haborted
        · rw [Function.update_of_ne hid] at haborted
          obtain ⟨r', hactive', hid'⟩ := hloops registration hloop haborted
          rw [hactive] at hactive'
          cases hactive'
          exact absurd hid'.symm hid
      · intro registration e _ hloop haborted
        dsimp only at hloop haborted
        by_cases hid : registration = r.id
        · subst hid
          simp at haborted
        · rw [Function.update_of_ne hid] at haborted
          exact ⟨hloop, haborted⟩
  | setLease =>
      refine ⟨?_, fun _ _ _ hloop haborted => ⟨hloop, haborted⟩⟩
      intro registration hloop haborted
      obtain ⟨r, hactive, hid⟩ := hloops registration hloop haborted
      dsimp only
      rw [hactive, Option.map_some]
      split
      · exact ⟨_, rfl, hid⟩
      · exact ⟨_, rfl, hid⟩
  | _ => exact ⟨hloops, fun _ _ _ hloop haborted => ⟨hloop, haborted⟩⟩

/-! ### The managers -/

/-- The operation has its turn. -/
def Manager.Running (m : Manager urls) (a : ℕ) : Prop := ∃ p, (m.operations a).phase = .running p

/-- What holds of the operations of a manager: the one that has its turn keeps to its rules,
the state of the identity is sound between the turns, and what has settled has established
its property. -/
structure Managed (w : Cluster urls ι) (i : ι) : Prop where
  fresh : ∀ g ∈ w.server.grants, g.manager = i →
    g.operation < (w.managers i).calls ∧ ¬ (w.managers i).Waiting g.operation
  keeps : ∀ a < (w.managers i).calls, ∀ p, ((w.managers i).operations a).phase = .running p →
    (rules urls i a ((w.managers i).operations a).identity).Keeps
      (Post i a ((w.managers i).operations a).identity ((w.managers i).operations a).kind
        ((w.managers i).operations a).found)
      p (w.view i ((w.managers i).operations a).identity)
  sound : ∀ e, (∀ a < (w.managers i).calls, ((w.managers i).operations a).identity = e →
    ¬ (w.managers i).Running a) → Sound i e (w.view i e)
  accounted : ∀ a < (w.managers i).calls, (w.managers i).Done a → ∀ g ∈ w.server.grants,
    g.manager = i → g.operation = a → g.answered = true →
    g.lease ∈ (w.managers i).adopted ∨ g.lease ∈ w.server.revocations
  rejected : ∀ a < (w.managers i).calls, ∀ e active,
    ((w.managers i).operations a).phase = .settled (.error e) active →
    ((w.managers i).operations a).kind.isRegister = true →
    active = ((w.managers i).operations a).found

variable {w w' : Cluster urls ι}

/-- What the others do leaves a manager as it is. -/
theorem Managed.others (h : Managed w i) (hmanager : w'.managers i = w.managers i)
    (hothers : Others i w.server w'.server) :
  Managed w' i
  := by
  have hview : ∀ e, Interferes i (w.view i e) (w'.view i e) := by
    intro e
    refine ⟨?_, hothers⟩
    simp only [Cluster.view, hmanager]
  constructor
  case fresh =>
    intro g hg hi
    rw [hmanager]
    exact h.fresh g (hothers.own g hg hi) hi
  case keeps =>
    rw [hmanager]
    intro a ha p hp
    exact (h.keeps a ha p hp).waits (.single (hview _))
  case sound =>
    rw [hmanager]
    intro e hidle
    exact (h.sound e hidle).interferes (hview e)
  case accounted =>
    rw [hmanager]
    intro a ha hdone g hg hi hoperation hanswered
    obtain hadopted | hrevoked :=
      h.accounted a ha hdone g (hothers.own g hg hi) hi hoperation hanswered
    · exact .inl hadopted
    · exact .inr (hothers.revocations hrevoked)
  case rejected =>
    rw [hmanager]
    exact h.rejected

variable [DecidableEq ι]

@[simp]
theorem managers_setManager (w : Cluster urls ι) (i : ι) (m : Manager urls) :
  (w.setManager i m).managers i = m
  := Function.update_self _ _ _

theorem managers_setManager_of_ne (w : Cluster urls ι) (hne : j ≠ i) (m : Manager urls) :
  (w.setManager i m).managers j = w.managers j
  := Function.update_of_ne hne _ _

variable {m : Manager urls}

/-- An operation queues up. Its manager may have created the state of the identity. -/
theorem Managed.acquire (h : Managed w i) (hoperations : m.operations = (w.managers i).operations)
    (hcalls : m.calls = (w.managers i).calls) (hloops : m.loops = (w.managers i).loops)
    (haborted : m.aborted = (w.managers i).aborted) (hadopted : m.adopted = (w.managers i).adopted)
    (hactive : ∀ e, (m.states e).active = ((w.managers i).states e).active) (identity : ℕ)
    (kind : Kind urls) :
  Managed (w.setManager i (m.acquire identity kind)) i
  := by
  have hold : ∀ a < m.calls, (m.acquire identity kind).operations a =
      (w.managers i).operations a := by
    intro a ha
    rw [← hoperations]
    exact Function.update_of_ne ha.ne _ _
  have hnew : ((m.acquire identity kind).operations m.calls).phase = .waiting := by
    simp [Manager.acquire]
  have hview : ∀ e, (w.setManager i (m.acquire identity kind)).view i e = w.view i e := by
    intro e
    have hstate : ((m.acquire identity kind).states e).active = (m.states e).active := by
      by_cases he : e = identity
      · subst he
        simp [Manager.acquire]
      · simp [Manager.acquire, he]
    simp only [Cluster.view, managers_setManager, hstate, hactive]
    simp only [Cluster.setManager, Manager.acquire, hloops, haborted, hadopted]
  have hlt : ∀ {a}, a < m.calls → a < (w.managers i).calls := fun ha => hcalls ▸ ha
  constructor
  case fresh =>
    intro g hg hi
    obtain ⟨hcall, hturn⟩ := h.fresh g hg hi
    rw [← hcalls] at hcall
    rw [managers_setManager]
    refine ⟨hcall.trans (Nat.lt_succ_self _), ?_⟩
    rw [Manager.Waiting, hold _ hcall]
    exact hturn
  case keeps =>
    rw [managers_setManager]
    intro a ha p hp
    obtain ha | rfl := Nat.lt_succ_iff_lt_or_eq.mp ha
    · rw [hview]
      rw [hold a ha] at hp ⊢
      exact h.keeps a (hlt ha) p hp
    · rw [hnew] at hp
      cases hp
  case sound =>
    rw [managers_setManager]
    intro e hidle
    rw [hview]
    apply h.sound e
    intro a ha hid hrunning
    rw [← hcalls] at ha
    apply hidle a (ha.trans (Nat.lt_succ_self _))
    · rw [hold a ha]
      exact hid
    · rw [Manager.Running, hold a ha]
      exact hrunning
  case accounted =>
    rw [managers_setManager]
    intro a ha hdone
    obtain ha | rfl := Nat.lt_succ_iff_lt_or_eq.mp ha
    · rw [Manager.Done, hold a ha] at hdone
      have hkept : (m.acquire identity kind).adopted = (w.managers i).adopted := hadopted
      rw [hkept]
      exact h.accounted a (hlt ha) hdone
    · rw [Manager.Done, hnew] at hdone
      cases hdone
  case rejected =>
    rw [managers_setManager]
    intro a ha e active hphase
    obtain ha | rfl := Nat.lt_succ_iff_lt_or_eq.mp ha
    · rw [hold a ha] at hphase ⊢
      exact h.rejected a (hlt ha) e active hphase
    · rw [hnew] at hphase
      cases hphase

/-- The turn of an operation comes. -/
theorem Managed.start (h : Managed w i) (hserial : Serial (w.managers i))
    (ha : a < (w.managers i).calls) (hwaiting : (w.managers i).Waiting a)
    (hprevious : ∀ b ∈ ((w.managers i).operations a).previous, (w.managers i).Done b) :
  Managed (w.setManager i ((w.managers i).start a)) i
  := by
  have hview : ∀ e, (w.setManager i ((w.managers i).start a)).view i e = w.view i e := by
    intro e
    simp only [Cluster.view, managers_setManager]
    rfl
  have hold : ∀ b ≠ a, ((w.managers i).start a).operations b = (w.managers i).operations b :=
    fun b hb => Function.update_of_ne hb _ _
  have hnew : ((w.managers i).start a).operations a =
      { (w.managers i).operations a with
        found := ((w.managers i).states ((w.managers i).operations a).identity).active
        phase := .running (program ((w.managers i).operations a).kind).run } :=
    Function.update_self _ _ _
  have hidle : ∀ b < (w.managers i).calls,
      ((w.managers i).operations b).identity = ((w.managers i).operations a).identity →
      ¬ (w.managers i).Running b := by
    rintro b hb hid ⟨p, hp⟩
    have hturn : ¬ (w.managers i).Waiting b := by
      rw [Manager.Waiting, hp]
      rintro ⟨⟩
    have hopen : ¬ (w.managers i).Done b := by
      rw [Manager.Done, hp]
      rintro ⟨⟩
    obtain hlt | rfl | hlt := lt_trichotomy b a
    · exact hopen (hprevious b ((hserial.previous a ha b).mpr ⟨hlt, hid⟩))
    · exact hturn hwaiting
    · have hdone := hserial.done_of_lt hlt hb hturn
      rw [Manager.Done, hwaiting] at hdone
      cases hdone
  constructor
  case fresh =>
    intro g hg hi
    obtain ⟨hcall, hturn⟩ := h.fresh g hg hi
    rw [managers_setManager]
    refine ⟨hcall, ?_⟩
    by_cases hga : g.operation = a
    · rw [Manager.Waiting, hga, hnew]
      rintro ⟨⟩
    · rw [Manager.Waiting, hold _ hga]
      exact hturn
  case keeps =>
    rw [managers_setManager]
    intro b hb p hp
    rw [hview]
    by_cases hba : b = a
    · subst hba
      rw [hnew] at hp ⊢
      cases hp
      have hfresh : ∀ g ∈ w.server.grants, g.manager = i → g.operation ≠ b := by
        intro g hg hi hoperation
        rw [← hoperation] at hwaiting
        exact (h.fresh g hg hi).2 hwaiting
      have hassures := program_assures (v := w.view i ((w.managers i).operations b).identity)
        (a := b) ((w.managers i).operations b).kind hfresh (h.sound _ hidle)
      exact hassures
    · rw [hold b hba] at hp ⊢
      exact h.keeps b hb p hp
  case sound =>
    rw [managers_setManager]
    intro e hquiet
    rw [hview]
    apply h.sound e
    rintro b hb hid ⟨p, hp⟩
    have hba : b ≠ a := by
      rintro rfl
      rw [hwaiting] at hp
      cases hp
    apply hquiet b hb
    · rw [hold b hba]
      exact hid
    · rw [Manager.Running, hold b hba]
      exact ⟨p, hp⟩
  case accounted =>
    rw [managers_setManager]
    intro b hb hdone
    have hba : b ≠ a := by
      rintro rfl
      rw [Manager.Done, hnew] at hdone
      cases hdone
    rw [Manager.Done, hold b hba] at hdone
    exact h.accounted b hb hdone
  case rejected =>
    rw [managers_setManager]
    intro b hb e active hphase
    by_cases hba : b = a
    · subst hba
      rw [hnew] at hphase
      cases hphase
    · rw [hold b hba] at hphase ⊢
      exact h.rejected b hb e active hphase

theorem managers_setView (w : Cluster urls ι) (i : ι) (identity : ℕ) (v : View urls ι) :
  (w.setView i identity v).managers i =
    { w.managers i with
      states := Function.update (w.managers i).states identity
        { (w.managers i).states identity with active := v.active }
      loops := v.loops
      aborted := v.aborted
      adopted := v.adopted }
  := Function.update_self _ _ _

/-- What an operation works on is what it has set. -/
theorem view_setView (w : Cluster urls ι) (i : ι) (identity : ℕ) (v : View urls ι) :
  (w.setView i identity v).view i identity = v
  := by
  simp only [Cluster.view, managers_setView, Function.update_self]
  rfl

/-- An operation that has its turn has neither settled nor waits. -/
theorem Manager.Running.turn (h : m.Running a) :
  ¬ m.Waiting a ∧ ¬ m.Done a
  := by
  obtain ⟨p, hp⟩ := h
  rw [Manager.Waiting, Manager.Done, hp]
  constructor
  · rintro ⟨⟩
  · rintro ⟨⟩

theorem Serial.running_unique (h : Serial m) {b : ℕ} (ha : a < m.calls) (hb : b < m.calls)
    (hrunning : m.Running a) (hrunning' : m.Running b) :
  a = b
  := h.turn_unique ha hb hrunning.turn.1 hrunning'.turn.1 hrunning.turn.2 hrunning'.turn.2

/-- A request of the operation that has its turn is served. -/
theorem Managed.served (h : Managed w i) (hserial : Serial (w.managers i)) {q : Request urls}
    {k : Reply q → Prog (Request urls) Reply (Except Thrown Settled)} {r : Reply q}
    (ha : a < (w.managers i).calls)
    (hrunning : ((w.managers i).operations a).phase = .running (.send q k))
    (hserves : Serves i a ((w.managers i).operations a).identity applied q (w.view i ((w.managers i).operations a).identity) r v) :
  Managed
    ((w.setManager i ((w.managers i).proceed a (.running (k r)))).setView i
      ((w.managers i).operations a).identity v) i
  := by
  obtain ⟨hadopted, hrevocations, hgrants⟩ := hserves.kept
  have hturn : (w.managers i).Running a := ⟨_, hrunning⟩
  have hold : ∀ b ≠ a, ((w.managers i).proceed a (.running (k r))).operations b =
      (w.managers i).operations b :=
    fun b hb => Function.update_of_ne hb _ _
  have hnew : ((w.managers i).proceed a (.running (k r))).operations a =
      { (w.managers i).operations a with phase := .running (k r) } :=
    Function.update_self _ _ _
  constructor
  case fresh =>
    intro g hg hi
    rw [managers_setView, managers_setManager]
    obtain hg | ⟨-, hoperation⟩ := hgrants g hg
    · obtain ⟨hcall, hwaits⟩ := h.fresh g hg hi
      refine ⟨hcall, ?_⟩
      by_cases hga : g.operation = a
      · rw [Manager.Waiting, hga, hnew]
        rintro ⟨⟩
      · rw [Manager.Waiting, hold _ hga]
        exact hwaits
    · rw [hoperation]
      refine ⟨ha, ?_⟩
      rw [Manager.Waiting, hnew]
      rintro ⟨⟩
  case keeps =>
    rw [managers_setView, managers_setManager]
    intro b hb p hp
    by_cases hba : b = a
    · subst hba
      rw [hnew] at hp ⊢
      cases hp
      rw [view_setView]
      exact (h.keeps b hb _ hrunning).served ⟨applied, hserves⟩
    · rw [hold b hba] at hp
      exact absurd (hserial.running_unique hb ha ⟨p, hp⟩ hturn) hba
  case sound =>
    intro e hidle
    rw [managers_setView, managers_setManager] at hidle
    have hne : e ≠ ((w.managers i).operations a).identity := by
      rintro rfl
      apply hidle a ha
      · rw [hnew]
      · exact ⟨_, congrArg Operation.phase hnew⟩
    -- only the state of the running operation may have an active registration
    have hheld := hserial.current ha hturn.turn.2
    have hother : (w.managers i).current ≠ some e := by
      rw [hheld]
      rintro ⟨⟩
      exact hne rfl
    have hnone := (hserial.dropped e hother).1
    intro r' hr'
    simp only [Cluster.view, managers_setView, managers_setManager, Function.update_of_ne hne] at hr'
    change ((w.managers i).states e).active = some r' at hr'
    rw [hnone] at hr'
    cases hr'
  case accounted =>
    rw [managers_setView, managers_setManager]
    intro b hb hdone g hg hi hoperation hanswered
    have hba : b ≠ a := by
      rintro rfl
      rw [Manager.Done, hnew] at hdone
      cases hdone
    rw [Manager.Done, hold b hba] at hdone
    obtain hg | ⟨-, hserved⟩ := hgrants g hg
    · obtain hkept | hrevoked := h.accounted b hb hdone g hg hi hoperation hanswered
      · exact .inl (hadopted hkept)
      · exact .inr (hrevocations hrevoked)
    · exact absurd (hoperation.symm.trans hserved) hba
  case rejected =>
    rw [managers_setView, managers_setManager]
    intro b hb e active hphase
    by_cases hba : b = a
    · subst hba
      rw [hnew] at hphase
      cases hphase
    · rw [hold b hba] at hphase ⊢
      exact h.rejected b hb e active hphase

/-- An operation settles. -/
theorem Managed.released (h : Managed w i) {outcome : Except Thrown Settled}
    (ha : a < (w.managers i).calls)
    (hrunning : ((w.managers i).operations a).phase = .running (.ret outcome)) :
  Managed (w.setManager i ((w.managers i).release a outcome)) i
  := by
  have hpost := (h.keeps a ha _ hrunning).returned
  have hold : ∀ b ≠ a, ((w.managers i).release a outcome).operations b =
      (w.managers i).operations b :=
    fun b hb => Function.update_of_ne hb _ _
  have hnew : ((w.managers i).release a outcome).operations a =
      { (w.managers i).operations a with
        phase := .settled outcome
          ((w.managers i).states ((w.managers i).operations a).identity).active } :=
    Function.update_self _ _ _
  have hview : ∀ e, (w.setManager i ((w.managers i).release a outcome)).view i e =
      w.view i e := by
    intro e
    have hstate : (((w.managers i).release a outcome).states e).active =
        ((w.managers i).states e).active := by
      by_cases he : e = ((w.managers i).operations a).identity
      · subst he
        simp [Manager.release]
      · simp [Manager.release, Manager.proceed, he]
    simp only [Cluster.view, managers_setManager, hstate]
    rfl
  constructor
  case fresh =>
    intro g hg hi
    obtain ⟨hcall, hwaits⟩ := h.fresh g hg hi
    rw [managers_setManager]
    refine ⟨hcall, ?_⟩
    by_cases hga : g.operation = a
    · rw [Manager.Waiting, hga, hnew]
      rintro ⟨⟩
    · rw [Manager.Waiting, hold _ hga]
      exact hwaits
  case keeps =>
    rw [managers_setManager]
    intro b hb p hp
    rw [hview]
    by_cases hba : b = a
    · subst hba
      rw [hnew] at hp
      cases hp
    · rw [hold b hba] at hp ⊢
      exact h.keeps b hb p hp
  case sound =>
    rw [managers_setManager]
    intro e hidle
    rw [hview]
    by_cases he : ((w.managers i).operations a).identity = e
    · subst he
      exact hpost.sound
    · apply h.sound e
      rintro b hb hid hturn
      have hba : b ≠ a := by
        rintro rfl
        exact he hid
      apply hidle b hb
      · rw [hold b hba]
        exact hid
      · rw [Manager.Running, hold b hba]
        exact hturn
  case accounted =>
    rw [managers_setManager]
    intro b hb hdone
    by_cases hba : b = a
    · subst hba
      exact hpost.accounted
    · rw [Manager.Done, hold b hba] at hdone
      exact h.accounted b hb hdone
  case rejected =>
    rw [managers_setManager]
    intro b hb e active hphase hregister
    by_cases hba : b = a
    · subst hba
      rw [hnew] at hphase hregister ⊢
      cases hphase
      exact hpost.rejected hregister e rfl
    · rw [hold b hba] at hphase hregister ⊢
      exact h.rejected b hb e active hphase hregister

/-! ### Runs -/

/-- A state of the identity that is created has no active registration. -/
theorem Serial.active_identityState (h : Serial m) (e : ℕ) :
  (m.identityState.2.states e).active = (m.states e).active
  := by
  rw [Manager.identityState]
  cases hcurrent : m.current with
  | some _ => rfl
  | none =>
      by_cases he : e = m.created
      · subst he
        dsimp only
        rw [Function.update_self, (h.dropped m.created (by simp [hcurrent])).1]
      · dsimp only
        rw [Function.update_of_ne he]

theorem kept_identityState (m : Manager urls) :
  m.identityState.2.operations = m.operations ∧ m.identityState.2.calls = m.calls ∧
    m.identityState.2.loops = m.loops ∧ m.identityState.2.aborted = m.aborted ∧
    m.identityState.2.adopted = m.adopted
  := by
  rw [Manager.identityState]
  cases m.current with
  | some | none => exact ⟨rfl, rfl, rfl, rfl, rfl⟩

/-- The invariant of runs. -/
structure Inv (w : Cluster urls ι) : Prop where
  consistent : Consistent w.server
  serial : ∀ i, Serial (w.managers i)
  managed : ∀ i, Managed w i

/-- An action of one manager, which leaves the others to theirs. -/
theorem Inv.of_manager (h : Inv w) (i : ι) (hconsistent : Consistent w'.server)
    (hserial : Serial (w'.managers i)) (hmanaged : Managed w' i)
    (hmanagers : ∀ j, j ≠ i → w'.managers j = w.managers j)
    (hothers : ∀ j, j ≠ i → Others j w.server w'.server) :
  Inv w'
  := by
  constructor
  case consistent => exact hconsistent
  case serial =>
    intro j
    by_cases hj : j = i
    · subst hj
      exact hserial
    · rw [hmanagers j hj]
      exact h.serial j
  case managed =>
    intro j
    by_cases hj : j = i
    · subst hj
      exact hmanaged
    · exact (h.managed j).others (hmanagers j hj) (hothers j hj)

/-- An action of one manager that sends nothing to etcd. -/
theorem Inv.setManager (h : Inv w) (i : ι) (hserial : Serial m)
    (hmanaged : Managed (w.setManager i m) i) :
  Inv (w.setManager i m)
  := by
  apply h.of_manager i
  · exact h.consistent
  · rw [managers_setManager]
    exact hserial
  · exact hmanaged
  · intro j hj
    exact managers_setManager_of_ne w hj m
  · intro j _
    exact .refl j _

theorem Inv.call (h : Inv w) (i : ι) (kind : Kind urls) :
  Inv (w.call i kind)
  := by
  obtain ⟨hserial, hcurrent⟩ := (h.serial i).identityState
  obtain ⟨hoperations, hcalls, hloops, haborted, hadopted⟩ := kept_identityState (w.managers i)
  apply h.setManager i (hserial.acquire hcurrent kind)
  exact (h.managed i).acquire hoperations hcalls hloops haborted hadopted
    (h.serial i).active_identityState _ kind

theorem Inv.beat (h : Inv w) {registration : ℕ}
    (hloop : (w.managers i).loops registration = some identity)
    (haborted : (w.managers i).aborted registration = false) :
  Inv (w.setManager i ((w.managers i).acquire identity (.heartbeat registration)))
  := by
  have hcurrent : (w.managers i).current = some identity := by
    by_contra hdropped
    obtain ⟨r, hactive, -⟩ := (h.serial i).loops registration identity hloop haborted
    rw [((h.serial i).dropped identity hdropped).1] at hactive
    cases hactive
  apply h.setManager i ((h.serial i).acquire hcurrent _)
  exact (h.managed i).acquire rfl rfl rfl rfl rfl (fun _ => rfl) _ _

theorem Inv.served (h : Inv w) {q : Request urls}
    {k : Reply q → Prog (Request urls) Reply (Except Thrown Settled)} {r : Reply q}
    (ha : a < (w.managers i).calls)
    (hrunning : ((w.managers i).operations a).phase = .running (.send q k))
    (hserves : Serves i a ((w.managers i).operations a).identity applied q (w.view i ((w.managers i).operations a).identity) r v) :
  Inv ((w.setManager i ((w.managers i).proceed a (.running (k r)))).setView i
    ((w.managers i).operations a).identity v)
  := by
  have hserial := h.serial i
  have hturn : (w.managers i).Running a := ⟨_, hrunning⟩
  have hpermitted := ((h.managed i).keeps a ha _ hrunning).sends
  have hserver : Consistent v.server ∧ ∀ j, j ≠ i → Others j w.server v.server := by
    cases hserves with
    | etcd hserves =>
        exact ⟨h.consistent.serves hpermitted hserves,
          fun j hj => hserves.others hj.symm h.consistent⟩
    | _ => exact ⟨h.consistent, fun j _ => .refl j _⟩
  apply h.of_manager i
  · exact hserver.1
  · rw [managers_setView, managers_setManager]
    have hproceeds : Serial ((w.managers i).proceed a (.running (k r))) :=
      hserial.proceed ha hturn.turn.2 rfl rfl rfl (hserial.turns a ha hturn.turn.1)
    obtain ⟨hloops, hothers⟩ := hserves.loops hpermitted (fun registration =>
      hserial.loops registration _)
    exact hproceeds.setState (hserial.current ha hturn.turn.2) v.active v.loops v.aborted
      v.adopted hloops hothers
  · exact (h.managed i).served hserial ha hrunning hserves
  · intro j hj
    exact (Function.update_of_ne hj _ _).trans (managers_setManager_of_ne w hj _)
  · exact hserver.2

theorem Inv.step {action : Action ι} (h : Inv w) (hstep : Move action w w') :
  Inv w'
  := by
  cases hstep with
  | register i wire | deregister i wire => exact h.call i _
  | beat hloop haborted _ => exact h.beat hloop haborted
  | acquired ha hwaiting hprevious =>
      rename_i i a
      have hdone : ¬ (w.managers i).Done a := by
        rw [Manager.Done, hwaiting]
        rintro ⟨⟩
      apply h.setManager i
      · exact (h.serial i).proceed ha hdone rfl rfl rfl hprevious
      · exact (h.managed i).start (h.serial i) ha hwaiting hprevious
  | served ha hrunning hserves => exact h.served ha hrunning hserves
  | released ha hrunning =>
      rename_i i a outcome
      have hturn : (w.managers i).Running a := ⟨_, hrunning⟩
      apply h.setManager i
      · exact (h.serial i).release ha hturn.turn.2 hturn.turn.1 outcome
      · exact (h.managed i).released ha hrunning
  | expired lease =>
      constructor
      case consistent => exact h.consistent.withoutLease lease
      case serial => exact h.serial
      case managed =>
        intro i
        exact (h.managed i).others rfl (others_withoutLease i w.server lease)

theorem serial_newRegistrationManager :
  Serial (newRegistrationManager : Manager urls)
  := by
  have hnone : ∀ a, ¬ a < (newRegistrationManager : Manager urls).calls :=
    fun a => Nat.not_lt_zero a
  constructor
  case last => rintro _ ⟨⟩
  case dropped => exact fun _ _ => ⟨rfl, fun a ha => absurd ha (hnone a)⟩
  case identity => exact fun a ha => absurd ha (hnone a)
  case order => exact fun _ b _ hb => absurd hb (hnone b)
  case refs =>
    intro e
    use []
    refine ⟨List.nodup_nil, rfl, ?_⟩
    intro a
    exact ⟨fun ha => absurd ha List.not_mem_nil, fun ha => absurd ha.1 (hnone a)⟩
  case tail =>
    intro e b
    exact ⟨fun hb => absurd hb List.not_mem_nil, fun hb => absurd hb.1 (hnone b)⟩
  case previous => exact fun a ha => absurd ha (hnone a)
  case turns => exact fun a ha => absurd ha (hnone a)
  case loops => rintro _ _ ⟨⟩

omit [DecidableEq ι] in
theorem inv_newWorld :
  Inv (newWorld : Cluster urls ι)
  := by
  have hnone : ∀ a, ¬ a < (newRegistrationManager : Manager urls).calls :=
    fun a => Nat.not_lt_zero a
  constructor
  case consistent =>
    constructor
    case bounded => exact fun g hg => absurd hg List.not_mem_nil
    case alive => exact fun lease hlease => absurd hlease List.not_mem_nil
    case unique => exact fun g hg => absurd hg List.not_mem_nil
    case row => rintro _ ⟨⟩
  case serial => exact fun _ => serial_newRegistrationManager
  case managed =>
    intro i
    constructor
    case fresh => exact fun g hg => absurd hg List.not_mem_nil
    case keeps => exact fun a ha => absurd ha (hnone a)
    case sound => rintro e - r ⟨⟩
    case accounted => exact fun a ha => absurd ha (hnone a)
    case rejected => exact fun a ha => absurd ha (hnone a)

theorem inv_of_run (hrun : ReflTransGen AnyStep newWorld w) :
  Inv w
  := by
  induction hrun with
  | refl => exact inv_newWorld
  | tail _ hstep ih =>
      obtain ⟨action, hstep⟩ := hstep
      exact ih.step hstep

/-! ### Ownership -/

/-- What holds of the operations and the registrations of a manager. -/
structure Ownership (w : Cluster urls ι) (i : ι) : Prop where
  /-- At most one operation has its turn. -/
  single : ∀ a < (w.managers i).calls, ∀ b < (w.managers i).calls,
    (w.managers i).Running a → (w.managers i).Running b → a = b
  /-- Turns come in the order of arrival. -/
  order : ∀ a b, a < b → b < (w.managers i).calls → ¬ (w.managers i).Waiting b →
    (w.managers i).Done a
  /-- The operations that have not settled share the state that the manager holds. -/
  shared : ∀ a < (w.managers i).calls, ¬ (w.managers i).Done a →
    (w.managers i).current = some ((w.managers i).operations a).identity
  /-- A state that the manager does not hold has no active registration, and no operation
  that holds or awaits it. -/
  dropped : ∀ e, (w.managers i).current ≠ some e → ((w.managers i).states e).active = none ∧
    ∀ a < (w.managers i).calls, ((w.managers i).operations a).identity = e →
      (w.managers i).Done a
  /-- At most one registration is active. -/
  active : ∀ e r e' r', ((w.managers i).states e).active = some r →
    ((w.managers i).states e').active = some r' → e = e' ∧ r = r'
  /-- Only the lease of the active registration is renewed. -/
  renewed : ∀ a < (w.managers i).calls, ∀ lease k,
    ((w.managers i).operations a).phase = .running (.send (.etcd (.keepAlive lease)) k) →
    ∃ r, ((w.managers i).states ((w.managers i).operations a).identity).active = some r ∧
      r.lease = lease
  /-- A register that rejects leaves the registration active that it has found. -/
  rejected : ∀ a < (w.managers i).calls, ∀ e active,
    ((w.managers i).operations a).phase = .settled (.error e) active →
    ((w.managers i).operations a).kind.isRegister = true →
    active = ((w.managers i).operations a).found
  /-- Between the turns, the heartbeats of the active registration go on. -/
  live : ∀ e, (∀ a < (w.managers i).calls, ((w.managers i).operations a).identity = e →
    ¬ (w.managers i).Running a) → ∀ r, ((w.managers i).states e).active = some r →
    (w.managers i).aborted r.id = false ∧ (w.managers i).loops r.id = some e
  /-- Every lease that an operation has received was made that of an active registration, or
  its revocation was asked for, when the operation settles. -/
  accounted : ∀ a < (w.managers i).calls, (w.managers i).Done a → ∀ g ∈ w.server.grants,
    g.manager = i → g.operation = a → g.answered = true →
    g.lease ∈ (w.managers i).adopted ∨ g.lease ∈ w.server.revocations
  /-- When there are no other managers, a heartbeat that has found or restored ownership
  leaves the record in the key under the current lease, unless this lease has ended. -/
  owned : (∀ j : ι, j = i) → ∀ a < (w.managers i).calls,
    ((w.managers i).operations a).phase = .running (.ret (.ok .owned)) →
    ∃ r, ((w.managers i).states ((w.managers i).operations a).identity).active = some r ∧
      ((∃ row, w.server.row = some row ∧ row.value = r.wire.value ∧ row.lease = r.lease) ∨
        r.lease ∉ w.server.leases)

/-- In every run, every manager owns its registrations. -/
theorem manager_owns {w : Cluster urls ι} (hrun : ReflTransGen AnyStep newWorld w) (i : ι) :
  Ownership w i
  := by
  have h := inv_of_run hrun
  have hserial := h.serial i
  have hmanaged := h.managed i
  constructor
  case single =>
    intro a ha b hb hrunning hrunning'
    exact hserial.running_unique ha hb hrunning hrunning'
  case order =>
    intro a b hlt hb hturn
    exact hserial.done_of_lt hlt hb hturn
  case shared =>
    intro a ha hdone
    exact hserial.current ha hdone
  case dropped => exact hserial.dropped
  case active =>
    intro e r e' r' hactive hactive'
    have hheld : ∀ {e r}, ((w.managers i).states e).active = some r →
        (w.managers i).current = some e := by
      intro e r hactive
      by_contra hother
      rw [(hserial.dropped e hother).1] at hactive
      cases hactive
    have hsame := (hheld hactive).symm.trans (hheld hactive')
    cases hsame
    rw [hactive] at hactive'
    cases hactive'
    exact ⟨rfl, rfl⟩
  case renewed =>
    intro a ha lease k hphase
    obtain ⟨r, hactive, hlease, -⟩ := (hmanaged.keeps a ha _ hphase).sends
    exact ⟨r, hactive, hlease⟩
  case rejected => exact hmanaged.rejected
  case live =>
    intro e hidle r hactive
    exact (hmanaged.sound e hidle r hactive).2
  case accounted => exact hmanaged.accounted
  case owned =>
    intro halone a ha hphase
    obtain ⟨r, hactive, hholds⟩ := (hmanaged.keeps a ha _ hphase).returned.owned rfl
    exact ⟨r, hactive, hholds halone⟩

/-- A record. -/
def bareRecord : EncodedRecord noUrls :=
  recordOf ⟨fun _ => .empty, fun _ => 0⟩ .empty bareInstance

/-- A register has returned. -/
def registeredWorld : Cluster noUrls Unit :=
  let w : Cluster noUrls Unit := newWorld.call () (.register bareRecord)
  w.turn () 0 .finished
    { server := ((newWorld : Cluster noUrls Unit).server.lent () 0).published () bareRecord.value 0
      active := some ⟨0, bareRecord, 0⟩
      loops := Function.update (fun _ => none) 0 (some 0)
      aborted := Function.update (fun _ => false) 0 false
      adopted := [0] }

theorem registeredWorld_run :
  ReflTransGen AnyStep newWorld registeredWorld
  := by
  have hcall : AnyStep newWorld ((newWorld : Cluster noUrls Unit).call () (.register bareRecord)) :=
    ⟨_, .register () bareRecord⟩
  apply ReflTransGen.head hcall
  refine run_turn Nat.one_pos rfl ?_ rfl rfl (returns_register bareRecord rfl)
  rintro _ ⟨⟩

/-- After a register has returned, its manager owns the registration. -/
theorem manager_owns_registered :
  ReflTransGen AnyStep newWorld registeredWorld ∧ Ownership registeredWorld ()
  := ⟨registeredWorld_run, manager_owns registeredWorld_run ()⟩

/-! ### Leases that are lost -/

/-- The response that grants a lease is lost. The register rejects, and the lease is never
revoked. -/
theorem lostGrant_run :
  ∃ w : Cluster noUrls Unit, ReflTransGen AnyStep newWorld w ∧ (w.managers ()).Done 0 ∧
    w.server.leases = [0] ∧ w.server.grants = [⟨0, (), 0, false⟩] ∧
    (w.managers ()).adopted = [] ∧ w.server.revocations = []
  := by
  refine ⟨_, .tail (.tail (.tail (.tail (.single
      ⟨_, .register () bareRecord⟩)
      ⟨_, @Move.acquired _ _ _ _ () 0 (by decide) rfl nofun⟩)
      ⟨_, @Move.served _ _ _ _ () 0 true _ _ _ _ (by decide) rfl .active⟩)
      ⟨_, @Move.served _ _ _ _ () 0 true _ _ _ _ (by decide) rfl (.etcd (.lost .transport rfl))⟩)
      ⟨_, @Move.released _ _ _ _ () 0 _ (by decide) rfl⟩, rfl, rfl, rfl, rfl, rfl⟩

/-- The lease expires after a heartbeat has found the record. -/
theorem endedLease_run :
  ∃ w : Cluster noUrls Unit, ReflTransGen AnyStep newWorld w ∧
    ((w.managers ()).operations 1).phase =
      .settled (.ok .owned) (some ⟨0, bareRecord, 0⟩) ∧
    w.server.row = none
  := by
  let w := registeredWorld.setManager ()
    ((registeredWorld.managers ()).acquire 0 (.heartbeat 0))
  have hbeat : Move .called registeredWorld w := by
    apply Move.beat rfl rfl
    intro a ha hkind
    obtain rfl : a = 0 := Nat.lt_one_iff.mp ha
    cases hkind
  have hreturns : (rules noUrls () 1 0).Returns (heartbeat 0) (w.view () 0) .owned
      (w.view () 0) :=
    returns_heartbeat (r := ⟨0, bareRecord, 0⟩) rfl rfl List.mem_cons_self rfl rfl rfl
  have hprevious : ∀ b ∈ ((w.managers ()).operations 1).previous,
      ((w.managers ()).operations b).phase.isSettled = true := by
    decide
  have hserved := run_start (w := w) (i := ()) (a := 1) Nat.one_lt_two rfl hprevious rfl rfl hreturns
  let w₁ := (w.setManager () ((w.managers ()).start 1)).goes () 1 (.ret (.ok .owned))
    (w.view () 0)
  let w₂ : Cluster noUrls Unit := { w₁ with server := w₁.server.withoutLease 0 }
  have hexpired : Move (.expired 0) w₁ w₂ := .expired 0
  have hreleased : Move .released w₂ (w₂.setManager () ((w₂.managers ()).release 1 (.ok .owned))) :=
    .released Nat.one_lt_two rfl
  have hrun := (registeredWorld_run.tail ⟨_, hbeat⟩).trans hserved
  refine ⟨_, (hrun.tail ⟨_, hexpired⟩).tail ⟨_, hreleased⟩, ?_, ?_⟩
  · simp only [managers_setManager, Manager.release, Manager.proceed, w₂, w₁, Cluster.goes_eq,
      Function.update_self]
    rfl
  · rfl

/-- A lease whose grant was not answered is neither adopted nor revoked, and a heartbeat that
has found its record leaves an empty key when the lease expires before it settles. -/
theorem lostLeases :
  (∃ w : Cluster noUrls Unit, ReflTransGen AnyStep newWorld w ∧ (w.managers ()).Done 0 ∧
    ∃ g ∈ w.server.grants, g.manager = () ∧ g.operation = 0 ∧ g.lease ∈ w.server.leases ∧
      g.lease ∉ (w.managers ()).adopted ∧ g.lease ∉ w.server.revocations) ∧
  ∃ w : Cluster noUrls Unit, ReflTransGen AnyStep newWorld w ∧
    ((w.managers ()).operations 1).phase =
      .settled (.ok .owned) (some ⟨0, bareRecord, 0⟩) ∧
    w.server.row = none
  := by
  constructor
  · obtain ⟨w, hrun, hdone, hleases, hgrants, hadopted, hrevocations⟩ := lostGrant_run
    refine ⟨w, hrun, hdone, ⟨0, (), 0, false⟩, ?_, rfl, rfl, ?_, ?_, ?_⟩
    · simp [hgrants]
    · simp [hleases]
    · simp [hadopted]
    · simp [hrevocations]
  · exact endedLease_run

end Registry.Etcd
