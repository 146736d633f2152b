import GoLike.Config.Etcd.WatcherTracks
import GoLike.Lib.Inevitable
import Mathlib.Data.Prod.Lex

/-!
# What the etcd watcher signals

A call of `next` that is not hindered comes to its end, and resolves unless it throws a
failure that is not retryable.

A call of `next` in a context that has ended leaves the watcher waiting for it, and no later
call is accepted. In a run without such calls every change is signaled.
-/

open Store Relation ChangeLog

namespace Config.Etcd

variable {options : WatcherOptions} {commits : Commits} {candidate revision : ℕ} {s : World}
  {w : Watcher} {call : Next}

/-! ### The end of a call -/

/-- The number of turns a call takes to its end at most, but for what it reads. -/
def Phase.rank (reply : Option Json) : Phase → ℕ
  | opening => 4
  | reading => 3
  | sleeping => 2
  | ranging => if reply.isSome then 0 else 1

/-- The rank of a state without a call lies above those of a call that can resolve. A call
whose context has ended may reject, and be followed by another one. -/
def World.rank (s : World) : ℕ :=
  match s.watcher.active with
  | none => 5
  | some call => (if call.ended then 6 else 0) + call.phase.rank s.reply

/-- What remains to be sent and read. -/
def Stream.load (revision : ℕ) (stream : Stream) : ℕ :=
  2 * (revision - stream.sent) + 2 * (!stream.created).toNat + 2 * (!stream.closed).toNat +
    stream.inbox.length

def World.load (s : World) : ℕ := (s.stream.map (Stream.load s.revision)).getD 0

/-- What decreases as a call advances. -/
def World.measure (s : World) : ℕ ×ₗ ℕ := toLex (s.rank, s.load)

theorem measure_lt_of_rank {s' : World} (h : s'.rank < s.rank) :
  s'.measure < s.measure
  := Prod.Lex.toLex_lt_toLex.mpr (.inl h)

theorem measure_lt_of_load {s' : World} (h : s'.rank = s.rank) (hlt : s'.load < s.load) :
  s'.measure < s.measure
  := Prod.Lex.toLex_lt_toLex.mpr (.inr ⟨h, hlt⟩)

theorem rank_active (hactive : s.watcher.active = some call) :
  s.rank = (if call.ended then 6 else 0) + call.phase.rank s.reply
  := by rw [World.rank, hactive]

@[simp]
theorem rank_settle (settlement : Settlement) :
  (s.proceed (s.watcher.settle settlement)).rank = 5
  := rfl

@[simp]
theorem rank_goOn (call : Next) :
  (s.proceed (s.watcher.goOn call)).rank =
    (if call.ended then 6 else 0) + call.phase.rank none
  := rfl

/-- What the server sends decreases what remains. -/
theorem Sends.load_lt {stream stream' : Stream} (h : Sends commits revision stream stream')
    (hopen : stream.closed = false) :
  stream'.load revision < stream.load revision
  := by
  cases h with
  | created hcreated header =>
      simp only [Stream.load, Stream.send, hcreated, List.length_append, List.length_singleton,
        Bool.not_false, Bool.not_true, Bool.toNat_true, Bool.toNat_false]
      omega
  | @events header upTo _ _ hcreated hchanged hupTo hheader =>
      have hlt : stream.sent < upTo := by
        by_contra hle
        apply hchanged
        intro r hr hr'
        exact absurd (hr.trans_le hr') hle
      simp only [Stream.load, Stream.send, List.length_append, List.length_singleton]
      omega
  | canceled header compactRevision =>
      simp only [Stream.load, Stream.send, hopen, List.length_append, List.length_singleton,
        Bool.not_false, Bool.not_true, Bool.toNat_true, Bool.toNat_false]
      omega
  | closed =>
      simp only [Stream.load, hopen, Bool.not_false, Bool.not_true, Bool.toNat_true,
        Bool.toNat_false]
      omega

/-- A failure ends the call, or lets it wait for its next attempt. -/
theorem caught_ends {r : ℕ} (hactive : s.watcher.active = some call) (hr : r ≤ s.revision)
    (hstopped : s.watcher.stopped = false) (value : Thrown)
    (hvalue : retryable value = true → 2 < call.phase.rank s.reply) :
  Signaled r (s.proceed (s.watcher.caught call value)) ∨
    (s.proceed (s.watcher.caught call value)).rank < s.rank
  := by
  rw [rank_active hactive, Watcher.caught, hstopped]
  by_cases hended : call.ended = true
  · right
    rw [if_pos hended, if_pos hended, rank_settle]
    omega
  · rw [if_neg hended, if_neg (by simp), if_neg hended]
    by_cases hretryable : retryable value = true
    · right
      rw [if_pos hretryable, rank_goOn, if_neg hended]
      have hrank := hvalue hretryable
      rw [Nat.zero_add, Nat.zero_add]
      exact hrank
    · left
      rw [if_neg hretryable]
      refine .inr (.inr ⟨s.revision, value, ?_, hr, by simpa using hretryable⟩)
      exact List.mem_append_right _ (List.mem_singleton_self _)

/-- A call that resolves signals each change that the store has committed. -/
theorem signaled_moved {r : ℕ} (hr : r ≤ s.revision) (current : Revision) :
  Signaled r (s.proceed (s.watcher.moved current))
  := .inr (.inl ((resolved_record _ _).mpr (.inr ⟨rfl, hr⟩)))

/-- A change that the store has committed after the candidate revision, and that is not
signaled. -/
structure Pending (commits : Commits) (candidate r : ℕ) (s : World) : Prop where
  tracks : Tracks commits candidate s
  after : candidate < r
  committed : r ≤ s.revision
  change : commits r ≠ none

/-- A call goes on as long as a change is not signaled. -/
theorem Pending.advances {r : ℕ} (h : Pending commits candidate r s) (hnot : ¬ Signaled r s) :
  ∃ s', Advances options commits s s'
  := by
  have hcurrent : s.watcher.current.value < r := by
    by_contra hle
    exact hnot (.inr (.inl (h.tracks.resolved r h.after (not_lt.mp hle) h.change)))
  cases hactive : s.watcher.active with
  | none => exact ⟨_, .called hactive⟩
  | some call =>
      cases hphase : call.phase with
      | opening => exact ⟨_, .opened hactive hphase⟩
      | sleeping => exact ⟨_, .waited hactive hphase⟩
      | ranging =>
          cases hreply : s.reply with
          | none => exact ⟨_, .answered hactive hphase hreply⟩
          | some response => exact ⟨_, .ranged hactive hphase hreply⟩
      | reading =>
          have hreading : s.watcher.reading = true := by
            rw [Watcher.reading, hactive]
            simp [hphase]
          obtain ⟨stream, hstream⟩ := Option.isSome_iff_exists.mp (h.tracks.reading hreading)
          cases hinbox : stream.inbox with
          | cons frame rest => exact ⟨_, .frameRead hactive hphase hstream hinbox⟩
          | nil =>
              cases hclosed : stream.closed with
              | true => exact ⟨_, .streamEnded hactive hphase hstream hinbox hclosed⟩
              | false =>
                  cases hcreated : stream.created with
                  | false => exact ⟨_, .sends hstream hclosed (.created hcreated 0)⟩
                  | true =>
                      -- nothing is in flight, so that the change has not been sent
                      have hdelivers := (h.tracks.stream stream hstream).delivers
                      rw [hinbox] at hdelivers
                      have hunsent : ¬ Unchanged commits stream.sent s.revision := by
                        intro hunchanged
                        apply h.change
                        by_cases hsent : r ≤ stream.sent
                        · exact hdelivers.unchanged_nil r hcurrent hsent
                        · exact hunchanged r (not_le.mp hsent) h.committed
                      have hsends : Sends commits s.revision stream
                          ({ stream with sent := s.revision }.send
                            (.events s.revision s.revision .null [])) :=
                        .events hcreated hunsent le_rfl le_rfl
                      exact ⟨_, .sends hstream hclosed hsends⟩

theorem revision_advances {s' : World} (hstep : Advances options commits s s') :
  s'.revision = s.revision
  := by
  cases hstep with
  | called | opened | openFailed | sends | frameRead | streamEnded | streamBroke | answered
  | ranged | waited | aborted => rfl

/-- The frame that a call reads signals the change, or brings the call closer to its end. -/
theorem frameRead_ends {r : ℕ} (hactive : s.watcher.active = some call)
    (hphase : call.phase = .reading) (hr : r ≤ s.revision) (hstopped : s.watcher.stopped = false)
    {stream : Stream} {frame : Sent} {rest : List Sent} (hstream : s.stream = some stream)
    (hinbox : stream.inbox = frame :: rest) :
  let s' := World.proceed { s with stream := some { stream with inbox := rest } }
    (s.watcher.frameRead call frame.line)
  Signaled r s' ∨ s'.measure < s.measure
  := by
  intro s'
  let s₁ : World := { s with stream := some { stream with inbox := rest } }
  have hrank : s.rank = (if call.ended then 6 else 0) + 3 := by
    rw [rank_active hactive, hphase]
    rfl
  -- the call reads on, with one frame less
  have hreadsOn : (s₁.proceed (s.watcher.goOn call)).measure < s.measure := by
    have hstream' : (s₁.proceed (s.watcher.goOn call)).stream = s₁.stream := by
      apply if_pos
      simp [Watcher.goOn, Watcher.reading, hphase]
    apply measure_lt_of_load
    · rw [hrank, rank_goOn, hphase]
      rfl
    · rw [World.load, World.load, hstream', hstream]
      simp only [s₁, Option.map_some, Option.getD_some, Stream.load, hinbox, List.length_cons]
      exact Nat.lt_succ_self _
  cases frame with
  | created header =>
      right
      dsimp only [s']
      rw [frameRead_created]
      exact hreadsOn
  | progress header =>
      right
      dsimp only [s']
      rw [frameRead_progress]
      exact hreadsOn
  | events header upTo event more =>
      left
      dsimp only [s']
      rw [frameRead_events]
      exact signaled_moved (s := s₁) hr _
  | canceled header compactRevision =>
      dsimp only [s']
      rw [frameRead_canceled]
      split
      · right
        apply measure_lt_of_rank
        rw [hrank, rank_goOn]
        exact Nat.add_lt_add_left (show 1 < 3 by decide) _
      · obtain hsignaled | hrank' := caught_ends (s := s₁) hactive hr
          hstopped (.protocol .watch) (by rintro ⟨⟩)
        · exact .inl hsignaled
        · exact .inr (measure_lt_of_rank hrank')

/-- A step that advances a call signals the change, or brings the call closer to its end. -/
theorem advances_ends {r : ℕ} {s' : World} (h : Tracks commits candidate s)
    (hr : r ≤ s.revision) (hstopped : s.watcher.stopped = false)
    (hstep : Advances options commits s s') :
  Signaled r s' ∨ s'.measure < s.measure
  := by
  have hcaught {call : Next} {value : Thrown} (hactive : s.watcher.active = some call)
      (hvalue : retryable value = true → 2 < call.phase.rank s.reply) :
      Signaled r (s.proceed (s.watcher.caught call value)) ∨
        (s.proceed (s.watcher.caught call value)).measure < s.measure := by
    obtain hsignaled | hrank := caught_ends hactive hr hstopped _ hvalue
    · exact .inl hsignaled
    · exact .inr (measure_lt_of_rank hrank)
  cases hstep with
  | called hidle =>
      right
      apply measure_lt_of_rank
      have hwaiting : s.watcher.waiting = false := by
        rw [h.waiting, hidle]
        rfl
      have hidleRank : s.rank = 5 := by rw [World.rank, hidle]
      rw [hidleRank, World.perform, Watcher.next, hstopped, hwaiting]
      exact show 0 + 4 < 5 by decide
  | opened hactive hphase =>
      right
      apply measure_lt_of_rank
      rw [rank_active hactive, hphase]
      exact Nat.add_lt_add_left (show 3 < 4 by decide) _
  | openFailed hactive hphase value =>
      apply hcaught hactive
      intro _
      rw [hphase]
      exact show 2 < 4 by decide
  | sends hstream hopen hsends =>
      right
      apply measure_lt_of_load
      · rfl
      · rw [World.load, World.load, hstream]
        exact hsends.load_lt hopen
  | frameRead hactive hphase hstream hinbox =>
      exact frameRead_ends hactive hphase hr hstopped hstream hinbox
  | streamEnded hactive hphase hstream hinbox hclosed | streamBroke hactive hphase value =>
      apply hcaught hactive
      intro _
      rw [hphase]
      exact show 2 < 3 by decide
  | answered hactive hphase hreply =>
      right
      apply measure_lt_of_rank
      rw [rank_active hactive, hphase, hreply,
        rank_active (s := { s with reply := some (rangeAt commits s.revision) }) hactive, hphase]
      exact Nat.add_lt_add_left (show 0 < 1 by decide) _
  | @ranged call response hactive hphase hreply =>
      cases hparse : parseRangeResponse response with
      | error e =>
          rw [Watcher.ranged, hparse]
          apply hcaught hactive
          rw [parseRangeResponse_error hparse]
          rintro ⟨⟩
      | ok recovered =>
          left
          rw [Watcher.ranged, hparse]
          exact signaled_moved hr _
  | waited hactive hphase =>
      right
      apply measure_lt_of_rank
      rw [rank_active hactive, hphase, Watcher.waited, h.recovering _ hactive hphase, rank_goOn]
      exact Nat.add_lt_add_left (show 1 < 2 by decide) _
  | @aborted call hactive haborted =>
      right
      obtain hended | hstopped' := haborted
      · apply measure_lt_of_rank
        rw [rank_active hactive, if_pos hended, Watcher.aborted, rank_settle]
        omega
      · rw [hstopped] at hstopped'
        cases hstopped'

/-- What advances a call signals the change, or brings the call closer to its end. -/
theorem Pending.decreases {r : ℕ} {s' : World} (h : Pending commits candidate r s)
    (hnot : ¬ Signaled r s) (hstep : Advances options commits s s') :
  Signaled r s' ∨ Pending commits candidate r s' ∧ s'.measure < s.measure
  := by
  have hstopped : s.watcher.stopped = false := by
    rw [Bool.eq_false_iff]
    exact fun hstopped => hnot (.inl hstopped)
  obtain hsignaled | hmeasure := advances_ends h.tracks h.committed hstopped hstep
  · exact .inl hsignaled
  · right
    constructor
    · constructor
      case tracks => exact h.tracks.advances hstep
      case after => exact h.after
      case committed =>
        rw [revision_advances hstep]
        exact h.committed
      case change => exact h.change
    · exact hmeasure

/-- In a run in which no call of `next` that the watcher accepts is made in a context that
has ended, each change after the candidate revision will be signaled in every way to go
on. -/
theorem watcher_signals {candidateText : Option JsString} {revision : ℕ}
    (hcreated : createWatcher candidateText = .ok w)
    (hrun : ReflTransGen (Step options commits liveCall) (start revision w) s) (r : ℕ)
    (hafter : w.current.value < r) (hcommitted : r ≤ s.revision) (hchange : commits r ≠ none) :
  Inevitable (Advances options commits) (Signaled r) s
  := by
  have htracks := (tracks_start revision hcreated).run hrun
  apply Inevitable.of_measure (Pending commits w.current.value r) World.measure
  · intro s hpending hnot
    exact hpending.advances hnot
  · intro s s' hpending hnot hstep
    exact hpending.decreases hnot hstep
  · exact ⟨htracks, hafter, hcommitted, hchange⟩

/-- The first revision sets the key. -/
def firstChange : Commits := fun r => if r = 1 then some (some (.string (name "e30="))) else none

/-- A watcher of all changes. -/
def initialWatcher : Watcher := ⟨.ofNat 0, false, false, none⟩

theorem watcher_signals_first :
  Inevitable (Advances ⟨250, 30000⟩ firstChange) (Signaled 1)
    { start 0 initialWatcher with revision := 1 }
  := by
  have hcreated : createWatcher none = .ok initialWatcher := rfl
  apply watcher_signals hcreated
  · exact .single (.inr .commit)
  · decide
  · exact le_rfl
  · rintro ⟨⟩

/-! ### A context that has ended -/

/-- The watcher waits for a call that has settled, and no call has signaled a change. -/
structure Stranded (s : World) : Prop where
  waiting : s.watcher.waiting = true
  active : s.watcher.active = none
  stream : s.stream = none
  unsignaled : ∀ t settlement, (t, settlement) ∈ s.settled →
    settlement ≠ .resolved ∧ ∀ value, settlement ≠ .rejected (.thrown value)

theorem Stranded.perform (h : Stranded s) (call : AppCall) :
  Stranded (s.perform options call)
  := by
  cases call with
  | stop => exact ⟨h.waiting, h.active, h.stream, h.unsignaled⟩
  | next ended =>
      have hrejected (reason : Rejection) (hreason : ∀ value, reason ≠ .thrown value) :
          Stranded ({ s with watcher := s.watcher }.record (some (.rejected reason))) := by
        refine ⟨h.waiting, h.active, h.stream, ?_⟩
        intro t settlement hmem
        obtain hmem | hmem := List.mem_append.mp hmem
        · exact h.unsignaled t settlement hmem
        · cases List.mem_singleton.mp hmem
          constructor
          · rintro ⟨⟩
          · rintro value ⟨⟩
            exact hreason value rfl
      rw [World.perform, Watcher.next]
      split
      · exact hrejected _ (by rintro value ⟨⟩)
      · rw [if_pos h.waiting]
        exact hrejected _ (by rintro value ⟨⟩)

theorem Stranded.advances {s' : World} (h : Stranded s) (hstep : Advances options commits s s') :
  Stranded s' ∧ s'.watcher.stopped = s.watcher.stopped
  := by
  have hactive := h.active
  cases hstep with
  | called hidle =>
      refine ⟨h.perform _, ?_⟩
      rw [World.perform, Watcher.next]
      split
      · rfl
      · rw [if_pos h.waiting]
        rfl
  | sends hstream hopen hsends =>
      rw [h.stream] at hstream
      cases hstream
  | opened hactive' _ | openFailed hactive' _ _ | frameRead hactive' _ _ _
  | streamEnded hactive' _ _ _ _ | streamBroke hactive' _ _ | answered hactive' _ _
  | ranged hactive' _ _ | waited hactive' _ | aborted hactive' _ => simp [hactive] at hactive'

theorem Stranded.step {s' : World} (h : Stranded s) (hstep : Step options commits anyCall s s') :
  Stranded s'
  := by
  have hactive := h.active
  obtain hstep | hstep := hstep
  · exact (h.advances hstep).1
  · cases hstep with
    | commit => exact ⟨h.waiting, h.active, h.stream, h.unsignaled⟩
    | call call hallowed => exact h.perform call
    | progress hstream _ _ =>
        rw [h.stream] at hstream
        cases hstream
    | contextEnds hactive' | rangeFailed hactive' _ _ => simp [hactive] at hactive'

/-- A change is not signaled by a watcher that is stranded. -/
theorem Stranded.not_inevitable (h : Stranded s) (hstopped : s.watcher.stopped = false) (r : ℕ) :
  ¬ Inevitable (Advances options commits) (Signaled r) s
  := by
  intro hinevitable
  obtain ⟨s', hrun, hsignaled⟩ := hinevitable.reaches
  have hstranded : Stranded s' ∧ s'.watcher.stopped = false := by
    clear hsignaled
    induction hrun with
    | refl => exact ⟨h, hstopped⟩
    | tail _ hstep ih =>
        obtain ⟨hstranded, hsame⟩ := ih.1.advances hstep
        exact ⟨hstranded, hsame.trans ih.2⟩
  obtain hstopped' | ⟨t, hresolved, -⟩ | ⟨t, value, hthrown, -⟩ := hsignaled
  · rw [hstranded.2] at hstopped'
    cases hstopped'
  · exact (hstranded.1.unsignaled _ _ hresolved).1 rfl
  · exact (hstranded.1.unsignaled _ _ hthrown).2 value rfl

/-- A call of `next` in a context that has ended strands the watcher. It was not stopped,
but however the run goes on, no call resolves after the change. -/
theorem endedContext_strands :
  ∃ s, ReflTransGen (Step ⟨250, 30000⟩ firstChange anyCall) (start 0 initialWatcher) s ∧
    createWatcher none = .ok initialWatcher ∧ initialWatcher.current.value < 1 ∧
    1 ≤ s.revision ∧ firstChange 1 ≠ none ∧ s.watcher.stopped = false ∧
    ¬ Inevitable (Advances ⟨250, 30000⟩ firstChange) (Signaled 1) s ∧
    ∀ s', ReflTransGen (Step ⟨250, 30000⟩ firstChange anyCall) s s' → ¬ s'.Resolved 1
  := by
  let s : World :=
    ⟨1, none, none, ⟨.ofNat 0, true, false, none⟩, [(0, .rejected .contextEnded)]⟩
  have hrun : ReflTransGen (Step ⟨250, 30000⟩ firstChange anyCall) (start 0 initialWatcher) s :=
    .tail (.single (.inr (.call (.next true) trivial))) (.inr .commit)
  have hstranded : Stranded s := by
    refine ⟨rfl, rfl, rfl, ?_⟩
    intro t settlement hmem
    cases List.mem_singleton.mp hmem
    exact ⟨by rintro ⟨⟩, by rintro value ⟨⟩⟩
  refine ⟨s, hrun, rfl, by decide, le_rfl, by rintro ⟨⟩, rfl, hstranded.not_inevitable rfl 1, ?_⟩
  intro s' hrun'
  have hstranded' : Stranded s' := by
    induction hrun' with
    | refl => exact hstranded
    | tail _ hstep ih => exact ih.step hstep
  rintro ⟨t, hresolved, -⟩
  exact (hstranded'.unsignaled _ _ hresolved).1 rfl

end Config.Etcd
