import GoLike.Store.Etcd.Client

/-!
# The requests of reads and deletes

A read and a delete put no row: every request they may send is a read, a deletion, or
concerns a lease.
-/

open Interleave

namespace Store.Etcd

/-- The request puts no row. -/
def PutsNothing (q : Request) : Prop :=
  ∀ operation x, q = .post (.txn operation x) → ∀ key value lease, x.success ≠ .put key value lease

theorem only_post {p : Post} (h : PutsNothing (.post p)) :
  Only PutsNothing (post p)
  := (only_request h).bind fun _ => only_settle _

theorem only_rangeExact (operation : Operation) (key : Key) :
  Only PutsNothing (rangeExact operation key)
  := by
  apply Only.bind
  · apply only_post
    rintro _ _ ⟨⟩
  · exact fun _ => only_settle _

theorem only_expired (row : EtcdRow) :
  Only PutsNothing (expired row)
  := by
  rw [expired]
  split
  · exact only_pure _
  · apply Only.bind
    · apply only_request
      rintro _ _ ⟨⟩
    · exact fun _ => only_pure _

theorem only_visibleRevision (row : Option EtcdRow) :
  Only PutsNothing (visibleRevision row)
  := by
  cases row with
  | none => exact only_pure _
  | some row =>
      apply (only_expired row).bind
      intro b
      cases b with
      | true | false => exact only_pure _

theorem only_throwConflict {α : Type} (key : Key) (expectedRevision : Option Key)
    (actual : Option EtcdRow) :
  Only PutsNothing (throwConflict key expectedRevision actual : EtcdM α)
  := (only_visibleRevision actual).bind fun _ => only_throw _

theorem only_releaseLease (lease : ℤ) :
  Only PutsNothing (releaseLease lease)
  := by
  rw [releaseLease]
  split
  · exact only_pure _
  · apply Only.tryCatch
    · apply Only.bind
      · apply only_post
        rintro _ _ ⟨⟩
      · exact fun _ => only_pure _
    · intro e
      split
      · exact only_pure _
      · exact only_throw _

theorem only_cleanupCommittedLease (operation : Operation) (lease replacementLease : ℤ) :
  Only PutsNothing (cleanupCommittedLease operation lease replacementLease)
  := by
  rw [cleanupCommittedLease]
  split
  · exact only_pure _
  · exact (only_releaseLease lease).tryCatch fun _ => only_throw _

theorem only_deleteAttempt (key : Key) (current : EtcdRow) :
  Only PutsNothing (deleteAttempt key current)
  := by
  apply Only.tryCatch
  · apply Only.bind
    · apply Only.bind
      · apply only_post
        rintro _ _ ⟨⟩ _ _ _ ⟨⟩
      · exact fun _ => only_settle _
    · exact fun _ => only_pure _
  · intro e
    split
    · exact only_throw _
    · apply Only.bind
      · apply Only.tryCatch
        · exact (only_rangeExact _ _).bind fun _ => only_pure _
        · exact fun _ => only_throw _
      · intro row
        split
        · exact only_pure _
        · split
          · exact only_pure _
          · exact only_throw _

theorem only_deleteRounds (key : Key) (config : DeleteOptions) (initiallyVisible : Bool)
    (rounds : ℕ) (current : EtcdRow) :
  Only PutsNothing (deleteRounds key config initiallyVisible rounds current)
  := by
  induction rounds generalizing current with
  | zero => exact only_unfinished
  | succ rounds ih =>
      rw [deleteRounds]
      apply (only_deleteAttempt key current).bind
      intro met
      cases met with
      | none =>
          apply (only_cleanupCommittedLease _ _ _).bind
          intro _
          split
          · exact only_throw _
          · exact only_pure _
      | some observed =>
          dsimp only
          split
          · exact ih current
          · split
            · exact only_throwConflict _ _ _
            · split
              · exact only_pure _
              · exact ih observed

theorem only_read (ctx : Context) (rawKey : JsString) :
  Only PutsNothing (read ctx rawKey)
  := by
  apply (only_settle _).bind
  intro _
  apply (only_settle _).bind
  intro key
  apply (only_rangeExact _ _).bind
  intro range
  cases range.row with
  | none => exact only_pure _
  | some row =>
      apply (only_expired row).bind
      intro b
      cases b with
      | true | false => exact only_pure _

theorem only_delete (rounds : ℕ) (ctx : Context) (rawKey : JsString)
    (reducers : List DeleteOption) :
  Only PutsNothing (delete rounds ctx rawKey reducers)
  := by
  apply (only_settle _).bind
  intro config
  apply (only_settle _).bind
  intro key
  apply (only_settle _).bind
  intro _
  apply (only_rangeExact _ _).bind
  intro range
  cases range.row with
  | none =>
      dsimp only
      split
      · exact only_throw _
      · exact only_pure _
  | some current =>
      apply (only_expired current).bind
      intro b
      apply Only.bind
      · rw [checkDeleted]
        split
        · apply (only_visibleRevision _).bind
          intro _
          split
          · exact only_throw _
          · exact only_pure _
        · exact only_pure _
      · exact fun _ => only_deleteRounds _ _ _ _ _

end Store.Etcd
