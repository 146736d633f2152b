import GoLike.Registry.Etcd.RegistrationOwnership

/-!
# The registrations of other managers

Managers that share the key of an identity overwrite each other's rows when they publish,
and remove a row when it has the value of their own record. Otherwise, what a manager does
leaves the rows of the others in the key.
-/

open Store Interleave Relation

namespace Registry.Etcd

variable {urls : UrlParser} {ι : Type}

/-! ### Requests -/

theorem note_kept (s : Server ι) (q : EtcdRequest) :
  (s.note q).row = s.row ∧ (s.note q).removed = s.removed
  := by
  cases q with
  | _ => exact ⟨rfl, rfl⟩

/-- A request that may take the row from the key. -/
inductive Takes (row : Row ι) : EtcdRequest → Prop where
  | publish (value : JsonText) (lease : ℕ) : Takes row (.publish value lease)
  | remove : Takes row (.remove row.value)
  | revokeLease : Takes row (.revokeLease row.lease)

variable {s s' : Server ι} {i : ι} {a : ℕ} {q : EtcdRequest}

/-- Every other request leaves the row. -/
theorem row_apply {answered : Bool} {r : EtcdReply q} {row : Row ι} (hrow : s.row = some row)
    (happly : s.apply i a answered q = some (r, s')) :
  s'.row = some row ∨ Takes row q
  := by
  cases q with
  | grantLease | range | keepAlive =>
      cases happly
      exact .inl hrow
  | publish value lease => exact .inr (.publish value lease)
  | restore value lease =>
      rw [Server.apply, if_pos (by simp [hrow])] at happly
      cases happly
      exact .inl hrow
  | remove value =>
      cases happly
      by_cases hvalue : row.value = value
      · subst hvalue
        exact .inr .remove
      · left
        simp only [Server.delete, hrow, if_neg hvalue]
  | revokeLease lease =>
      cases happly
      by_cases hlease : row.lease = lease
      · subst hlease
        exact .inr .revokeLease
      · left
        simp [Server.withoutLease, hrow, hlease]

theorem removed_put {value : JsonText} {lease : ℕ} {r : Unit}
    (h : s.put i value lease = some (r, s')) :
  s'.removed = s.removed
  := by
  rw [Server.put] at h
  split at h
  · cases h
    rfl
  · cases h

/-- A row is removed by a request to remove its value. -/
theorem removed_apply {answered : Bool} {r : EtcdReply q}
    (happly : s.apply i a answered q = some (r, s')) :
  s'.removed = s.removed ∨
    ∃ row, s.row = some row ∧ q = .remove row.value ∧ s'.removed = (i, row) :: s.removed
  := by
  cases q with
  | grantLease | range | keepAlive | revokeLease =>
      cases happly
      exact .inl rfl
  | publish value lease => exact .inl (removed_put happly)
  | restore value lease =>
      left
      rw [Server.apply] at happly
      split at happly
      · cases happly
        rfl
      · exact removed_put happly
  | remove value =>
      cases happly
      rw [Server.delete]
      split
      · exact .inl rfl
      · rename_i row hrow
        split
        · rename_i hvalue
          subst hvalue
          exact .inr ⟨row, hrow, rfl, rfl⟩
        · exact .inl rfl

theorem EtcdServes.row {applied : Bool} {r : Except Thrown (EtcdReply q)}
    (h : EtcdServes i a applied q s r s') {row : Row ι} (hrow : s.row = some row) :
  s'.row = some row ∨ applied = true ∧ Takes row q
  := by
  have hnote : (s.note q).row = some row := (note_kept s q).1.trans hrow
  cases h with
  | answered happly | lost e happly =>
      exact (row_apply hnote happly).imp_right (fun htakes => ⟨rfl, htakes⟩)
  | failed e => exact .inl hnote

theorem EtcdServes.removed {applied : Bool} {r : Except Thrown (EtcdReply q)}
    (h : EtcdServes i a applied q s r s') :
  s'.removed = s.removed ∨ applied = true ∧
    ∃ row, s.row = some row ∧ q = .remove row.value ∧ s'.removed = (i, row) :: s.removed
  := by
  obtain ⟨hrow, hremoved⟩ := note_kept s q
  rw [← hrow, ← hremoved]
  cases h with
  | answered happly | lost e happly =>
      exact (removed_apply happly).imp_right (fun hrow => ⟨rfl, hrow⟩)
  | failed e => exact .inl rfl

/-! ### Steps -/

/-- What a manager works on when it has registered the record. -/
def registeredView (s : Server Bool) (i : Bool) : View noUrls Bool where
  server := (s.lent i 0).published i bareRecord.value s.granted
  active := some ⟨0, bareRecord, s.granted⟩
  loops := Function.update (fun _ => none) 0 (some 0)
  aborted := Function.update (fun _ => false) 0 false
  adopted := [s.granted]

/-- A manager registers the record. -/
def Cluster.registers (w : Cluster noUrls Bool) (i : Bool) : Cluster noUrls Bool :=
  (w.call i (.register bareRecord)).turn i 0 .finished (registeredView w.server i)

end Registry.Etcd
