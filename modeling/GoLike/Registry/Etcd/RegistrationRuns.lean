import GoLike.Registry.Etcd.RegistrationRules

/-!
# Runs of registration operations

When every request of an operation is answered, and no other operation interferes, a
register leaves its record in the key, a heartbeat finds it there, and a deregister removes
it.
-/

open Store Interleave Relation

namespace Registry.Etcd

variable {urls : UrlParser} {ι : Type}

/-! ### Requests -/

section

variable {i : ι} {a identity : ℕ} {v : View urls ι}

theorem returns_ask {q : Request urls} {r : Reply q} {v' : View urls ι}
    (hserves : Serves i a identity true q v r v') :
  (rules urls i a identity).Returns (ask q) v r v'
  := Conduct.returns_request ⟨true, hserves⟩

theorem returns_post {q : EtcdRequest} {r : EtcdReply q} {server : Server ι}
    (happly : (v.server.note q).apply i a true q = some (r, server)) :
  (rules urls i a identity).Returns (post q) v r { v with server := server }
  := Conduct.Returns.bind (returns_ask (.etcd (.answered happly))) Conduct.returns_settle

theorem returns_transact {q : EtcdRequest} {r : EtcdReply q} {server : Server ι}
    (happly : (v.server.note q).apply i a true q = some (r, server)) :
  (rules urls i a identity).Returns (transact q) v none { v with server := server }
  := Conduct.Returns.tryCatch (Conduct.Returns.bind (returns_post happly) Conduct.returns_pure)

theorem returns_range :
  (rules urls i a identity).Returns (post .range) v
    (v.server.row.map (fun row => (row.value, row.lease))) v
  := returns_post rfl

/-- The record is found in the key. -/
theorem returns_owns {record : EncodedRecord urls} (row : Row ι) (hrow : v.server.row = some row)
    (hvalue : row.value = record.value) :
  (rules urls i a identity).Returns (owns record row.lease) v true v
  := by
  have hfound : decide (v.server.row.map (fun row => (row.value, row.lease)) =
      some (record.value, row.lease)) = true := by
    apply decide_eq_true
    rw [hrow, Option.map_some, hvalue]
  apply Conduct.Returns.bind returns_range
  rw [← hfound]
  exact Conduct.returns_pure

/-- A record is put under a lease that is alive. -/
def Server.published (s : Server ι) (i : ι) (value : JsonText) (lease : ℕ) : Server ι :=
  { s with row := some ⟨value, lease, i⟩ }

theorem returns_publish (record : EncodedRecord urls) {lease : ℕ}
    (halive : lease ∈ v.server.leases) :
  (rules urls i a identity).Returns (publish record lease) v ()
    { v with server := v.server.published i record.value lease }
  := by
  have hput : (v.server.note (.publish record.value lease)).apply i a true
      (.publish record.value lease) = some ((), v.server.published i record.value lease) := by
    change v.server.put i record.value lease = _
    rw [Server.put, if_pos halive]
    rfl
  apply Conduct.Returns.bind (returns_transact hput)
  apply Conduct.Returns.bind (returns_owns ⟨record.value, lease, i⟩ rfl rfl)
  exact Conduct.returns_pure

/-- A lease is granted to an operation. -/
def Server.lent (s : Server ι) (i : ι) (a : ℕ) : Server ι :=
  { s with
    leases := s.granted :: s.leases
    granted := s.granted + 1
    grants := ⟨s.granted, i, a, true⟩ :: s.grants }

/-- A register of an instance that was not registered. -/
theorem returns_register (wire : EncodedRecord urls) (hactive : v.active = none) :
  (rules urls i a identity).Returns (register wire) v .finished
    { server := (v.server.lent i a).published i wire.value v.server.granted
      active := some ⟨a, wire, v.server.granted⟩
      loops := Function.update v.loops a (some identity)
      aborted := Function.update v.aborted a false
      adopted := v.server.granted :: v.adopted }
  := by
  have hadmit : (rules urls i a identity).Returns (admitRecord wire) v v.server.granted
      { v with server := (v.server.lent i a).published i wire.value v.server.granted } := by
    apply Conduct.Returns.bind (returns_post rfl)
    apply Conduct.Returns.tryCatch
    exact Conduct.Returns.bind (returns_publish wire List.mem_cons_self) Conduct.returns_pure
  apply Conduct.Returns.bind (returns_ask .active)
  apply Conduct.Returns.bind hadmit
  apply Conduct.Returns.bind (returns_ask (.contextFailure false))
  rw [hactive]
  apply Conduct.Returns.bind Conduct.returns_pure
  exact Conduct.Returns.bind (returns_ask .activate) Conduct.returns_pure

/-- A heartbeat of a registration whose record is in the key. -/
theorem returns_heartbeat {r : ActiveRegistration urls} (hactive : v.active = some r)
    (haborted : v.aborted r.id = false) (halive : r.lease ∈ v.server.leases) {row : Row ι}
    (hrow : v.server.row = some row) (hvalue : row.value = r.wire.value)
    (hlease : row.lease = r.lease) :
  (rules urls i a identity).Returns (heartbeat r.id) v .owned v
  := by
  have hkept : (rules urls i a identity).Returns (keepAlive r.lease) v true v := by
    have happly : (v.server.note (.keepAlive r.lease)).apply i a true (.keepAlive r.lease) =
        some (true, v.server) := by
      change some (decide (r.lease ∈ v.server.leases), v.server) = _
      rw [decide_eq_true halive]
    exact returns_post happly
  have howned : (rules urls i a identity).Returns (stillOwns r) v true v := by
    apply Conduct.Returns.bind hkept
    rw [if_pos rfl, ← hlease]
    exact returns_owns _ hrow hvalue
  apply Conduct.Returns.bind (returns_ask .active)
  apply Conduct.Returns.bind (returns_ask .aborted)
  rw [hactive]
  dsimp only
  rw [if_neg (by simp [haborted])]
  apply Conduct.Returns.tryCatch
  apply Conduct.Returns.bind howned
  exact Conduct.returns_pure

end

/-! ### Turns -/

/-- What happens, whatever it is. -/
def AnyStep [DecidableEq ι] (w w' : Cluster urls ι) : Prop := ∃ action, Move action w w'

variable [DecidableEq ι]

namespace Cluster

/-- An operation that has its turn has gone on, and has worked on its state. -/
def goes (w : Cluster urls ι) (i : ι) (a : ℕ)
    (rest : Prog (Request urls) Reply (Except Thrown Settled)) (v : View urls ι) :
    Cluster urls ι :=
  (w.setManager i ((w.managers i).proceed a (.running rest))).setView i
    ((w.managers i).operations a).identity v

/-- An operation has had its turn, and has settled. -/
def turn (w : Cluster urls ι) (i : ι) (a : ℕ) (settled : Settled) (v : View urls ι) :
    Cluster urls ι :=
  let w' := (w.setManager i ((w.managers i).start a)).goes i a (.ret (.ok settled)) v
  w'.setManager i ((w'.managers i).release a (.ok settled))

variable (w : Cluster urls ι) (i : ι) (a : ℕ)

theorem goes_eq (rest : Prog (Request urls) Reply (Except Thrown Settled)) (v : View urls ι) :
  w.goes i a rest v =
    ⟨v.server, Function.update w.managers i
      { w.managers i with
        operations := Function.update (w.managers i).operations a
          { (w.managers i).operations a with phase := .running rest }
        states := Function.update (w.managers i).states ((w.managers i).operations a).identity
          { (w.managers i).states ((w.managers i).operations a).identity with
            active := v.active }
        loops := v.loops
        aborted := v.aborted
        adopted := v.adopted }⟩
  := by
  simp only [goes, setView, setManager, Function.update_self, Function.update_idem]
  rfl

@[simp]
theorem goes_goes (rest rest' : Prog (Request urls) Reply (Except Thrown Settled))
    (v v' : View urls ι) :
  (w.goes i a rest v).goes i a rest' v' = w.goes i a rest' v'
  := by
  simp only [goes_eq, Function.update_self, Function.update_idem]

/-- The operation works on what it has set. -/
@[simp]
theorem view_goes (rest : Prog (Request urls) Reply (Except Thrown Settled))
    (v : View urls ι) :
  (w.goes i a rest v).view i ((w.managers i).operations a).identity = v
  := by
  simp only [goes_eq, view, Function.update_self]

/-- The turn of an operation has come. -/
theorem goes_start :
  (w.setManager i ((w.managers i).start a)).goes i a
      (program ((w.managers i).operations a).kind).run
      (w.view i ((w.managers i).operations a).identity) =
    w.setManager i ((w.managers i).start a)
  := by
  simp only [goes_eq, setManager, Function.update_self, Function.update_idem, Manager.start, view,
    Function.update_eq_self]

end Cluster

/-- The requests of an operation that has its turn are served. -/
theorem run_of_completes {w : Cluster urls ι} {i : ι} {a : ℕ} (ha : a < (w.managers i).calls)
    {p : Prog (Request urls) Reply (Except Thrown Settled)} {v v' : View urls ι}
    {x : Except Thrown Settled}
    (h : (rules urls i a ((w.managers i).operations a).identity).Completes p v x v') :
  ReflTransGen AnyStep (w.goes i a p v) (w.goes i a (.ret x) v')
  := by
  induction h with
  | ret => exact .refl
  | send hserves _ ih =>
      rename_i q k v₁ v₂ v₃ r x' _
      obtain ⟨applied, hserves⟩ := hserves
      have hidentity : (((w.goes i a (.send q k) v₁).managers i).operations a).identity =
          ((w.managers i).operations a).identity := by
        simp [Cluster.goes_eq]
      have hstep : Move (.served i a applied) (w.goes i a (.send q k) v₁)
          ((w.goes i a (.send q k) v₁).goes i a (k r) v₂) := by
        apply Move.served
        · simpa [Cluster.goes_eq] using ha
        · simp [Cluster.goes_eq]
        · rw [hidentity, Cluster.view_goes]
          exact hserves
      rw [Cluster.goes_goes] at hstep
      exact .head ⟨_, hstep⟩ ih

/-- An operation has its turn, and its requests are served. -/
theorem run_start {w : Cluster urls ι} {i : ι} {a identity : ℕ} {kind : Kind urls}
    (ha : a < (w.managers i).calls)
    (hwaiting : ((w.managers i).operations a).phase = .waiting)
    (hprevious : ∀ b ∈ ((w.managers i).operations a).previous,
      ((w.managers i).operations b).phase.isSettled = true)
    (hkind : ((w.managers i).operations a).kind = kind)
    (hidentity : ((w.managers i).operations a).identity = identity)
    {settled : Settled} {v : View urls ι}
    (h : (rules urls i a identity).Returns (program kind) (w.view i identity) settled v) :
  ReflTransGen AnyStep w
    ((w.setManager i ((w.managers i).start a)).goes i a (.ret (.ok settled)) v)
  := by
  subst hkind hidentity
  let w' := w.setManager i ((w.managers i).start a)
  have hstart : Move .acquired w w' := .acquired ha hwaiting hprevious
  have hidentity : ((w'.managers i).operations a).identity =
      ((w.managers i).operations a).identity := by
    simp [w', Cluster.setManager, Manager.start]
  have ha' : a < (w'.managers i).calls := by
    simpa [w', Cluster.setManager, Manager.start] using ha
  have hreturns : (rules urls i a ((w'.managers i).operations a).identity).Returns
      (program ((w.managers i).operations a).kind)
      (w.view i ((w.managers i).operations a).identity) settled v := by
    rw [hidentity]
    exact h
  have hrun := run_of_completes ha' hreturns
  rw [Cluster.goes_start] at hrun
  exact .head ⟨_, hstart⟩ hrun

/-- An operation has its turn, and settles. -/
theorem run_turn {w : Cluster urls ι} {i : ι} {a identity : ℕ} {kind : Kind urls}
    (ha : a < (w.managers i).calls)
    (hwaiting : ((w.managers i).operations a).phase = .waiting)
    (hprevious : ∀ b ∈ ((w.managers i).operations a).previous,
      ((w.managers i).operations b).phase.isSettled = true)
    (hkind : ((w.managers i).operations a).kind = kind)
    (hidentity : ((w.managers i).operations a).identity = identity)
    {settled : Settled} {v : View urls ι}
    (h : (rules urls i a identity).Returns (program kind) (w.view i identity) settled v) :
  ReflTransGen AnyStep w (w.turn i a settled v)
  := by
  apply (run_start ha hwaiting hprevious hkind hidentity h).tail
  refine ⟨.released, Move.released ?_ ?_⟩
  · simpa [Cluster.goes_eq, Cluster.setManager, Manager.start] using ha
  · simp [Cluster.goes_eq]

end Registry.Etcd
