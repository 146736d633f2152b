import GoLike.Registry.Zookeeper.Watch

/-!
# When the reconciliations of the ZooKeeper watcher are coherent

The recovery of a session runs its own reconciliation beside the queue, and the armed flag
is shared by the callbacks and failures of all clients. As long as neither interferes,
reconciliations do not overlap, snapshots are published in the order of their reads, and the
armed flag tells whether a watch is outstanding.
-/

open Store Relation ChangeLog

namespace Registry.Zookeeper

variable {urls : UrlParser} {options : WatcherOptions urls} {commits : Commits}

/-! ### Careful steps -/

/-- A reconciliation is not started by a watcher that has ended or recovers. -/
def World.inactive (s : World urls) : Prop := s.outlet.aborted = true ∨ s.recovery.isSome = true

/-- The step does not lead to an interference: the queue and the recovery start no
reconciliation beside one that runs, no callback or failed watch call of a client that was
replaced resets the armed flag, and no watch call is aborted whose watch is set. -/
def Careful (s : World urls) : Action urls → Prop
  | .start => s.inactive ∨ s.running = []
  | .recovered => s.outlet.aborted = true ∨ s.running = []
  | .listed r => r.stage = .listed none → r.watching = true → r.client ≠ s.activeClient →
      s.armed = false
  | .childrenFailed r => r.watching = true →
      (∀ names, r.stage ≠ .listed (some names)) ∧ (r.client ≠ s.activeClient → s.armed = false)
  | .fired client => client ≠ s.activeClient → s.armed = false
  | _ => True

/-- A careful step. -/
def CarefulStep (options : WatcherOptions urls) (commits : Commits) (s s' : World urls) : Prop :=
  ∃ a, Step options commits a s s' ∧ Careful s a

/-! ### The armed flag -/

/-- The reconciliation is about to set a watch on the active client, or to learn that it has
not been set. -/
def Reconciliation.awaitsWatch (client : ℕ) (r : Reconciliation urls) : Bool :=
  r.watching && r.client = client &&
    match r.stage with
    | .children => true
    | .listed none => true
    | _ => false

/-- The number of watches on a client that are set or about to be set. -/
def World.pending (s : World urls) (client : ℕ) : ℕ :=
  s.watches.count client + s.running.countP (Reconciliation.awaitsWatch client)

/-- The armed flag tells whether there is a watch on the active client, and at most one
reconciliation runs. -/
structure Armed (s : World urls) : Prop where
  single : s.running.length ≤ 1
  active : s.activeClient < s.clients
  watches : ∀ client ∈ s.watches, client < s.clients
  running : ∀ r ∈ s.running, r.client < s.clients
  recovering : s.recovery.isSome = true → s.armed = false ∧ s.session = .closed
  pending : s.session ≠ .closed → s.pending s.activeClient = s.armed.toNat

variable {s : World urls} {r : Reconciliation urls} {l₁ l₂ : List (Reconciliation urls)}

/-- The only reconciliation that runs. -/
theorem Armed.running_eq (h : Armed s) (hrunning : s.running = l₁ ++ r :: l₂) :
  l₁ = [] ∧ l₂ = []
  := by
  have hsingle := h.single
  rw [hrunning, List.length_append, List.length_cons] at hsingle
  constructor
  · apply List.length_eq_zero_iff.mp
    omega
  · apply List.length_eq_zero_iff.mp
    omega

theorem Armed.reconcile (h : Armed s) (own : Bool) (hidle : s.inactive ∨ s.running = []) :
  Armed (s.reconcile own)
  := by
  rw [World.reconcile]
  split
  · exact h
  · rename_i hactive
    have hrunning : s.running = [] := hidle.resolve_left hactive
    have hrecovery : s.recovery.isSome ≠ true := fun hsome => hactive (.inr hsome)
    rw [hrunning, List.nil_append]
    constructor
    case single => exact le_rfl
    case active => exact h.active
    case watches => exact h.watches
    case running =>
      intro r hr
      rw [List.mem_singleton.mp hr]
      exact h.active
    case recovering =>
      intro hsome
      exact absurd hsome hrecovery
    case pending =>
      intro hsession
      have hpending := h.pending hsession
      simp only [World.pending, hrunning, List.countP_nil, add_zero] at hpending
      simp only [World.pending, hpending, Reconciliation.awaitsWatch, List.countP_cons,
        List.countP_nil]
      cases s.armed with
      | true | false => simp

variable {s' : World urls}

/-- A step that concerns neither watches nor reconciliations. -/
theorem Armed.of_eq (h : Armed s) (hrunning : s'.running = s.running)
    (hactive : s'.activeClient = s.activeClient) (hclients : s'.clients = s.clients)
    (hwatches : s'.watches = s.watches) (harmed : s'.armed = s.armed)
    (hrecovering : s'.recovery.isSome = true → s.recovery.isSome = true)
    (hsession : s'.session = .closed ↔ s.session = .closed) :
  Armed s'
  := by
  obtain ⟨hsingle, hlt, hwatches', hrunning', hrecovering', hpending⟩ := h
  constructor
  case single =>
    rw [hrunning]
    exact hsingle
  case active =>
    rw [hactive, hclients]
    exact hlt
  case watches =>
    rw [hwatches, hclients]
    exact hwatches'
  case running =>
    rw [hrunning, hclients]
    exact hrunning'
  case recovering =>
    rw [harmed, hsession]
    intro hsome
    exact hrecovering' (hrecovering hsome)
  case pending =>
    rw [ne_eq, hsession, World.pending, hwatches, hrunning, hactive, harmed]
    exact hpending

theorem Armed.caught (h : Armed s) (value : Thrown) :
  Armed (s.caught value)
  := by
  rw [World.caught]
  split
  · exact h.of_eq rfl rfl rfl rfl rfl id .rfl
  · exact h.of_eq rfl rfl rfl rfl rfl id .rfl

/-- The only reconciliation goes on or ends, and no longer awaits a watch. When it was to set
a watch the flag is reset. -/
theorem Armed.resolved (h : Armed s) {running : List (Reconciliation urls)}
    (hrunning : s.running = [r]) (hrest : running.length ≤ 1)
    (hclient : ∀ r' ∈ running, r'.client = r.client)
    (hawaits : ∀ r' ∈ running, r'.awaitsWatch s.activeClient = false)
    (hstage : r.stage = .children ∨ r.stage = .listed none)
    (hreplaced : r.watching = true → r.client ≠ s.activeClient → s.armed = false) :
  Armed (World.watchFailed { s with running := running } r)
  := by
  have hr : r.client < s.clients := h.running r (by simp [hrunning])
  have hrunning' : ∀ r' ∈ running, r'.client < s.clients := by
    intro r' hr'
    rw [hclient r' hr']
    exact hr
  have hcount : running.countP (Reconciliation.awaitsWatch s.activeClient) = 0 := by
    apply List.countP_eq_zero.mpr
    intro r' hr'
    simp [hawaits r' hr']
  have hstage' : (match r.stage with
      | .children => true
      | .listed none => true
      | _ => false) = true := by
    obtain hstage | hstage := hstage
    · rw [hstage]
    · rw [hstage]
  rw [World.watchFailed]
  split
  · rename_i hwatching
    refine ⟨hrest, h.active, h.watches, hrunning', ?_, ?_⟩
    · intro hsome
      exact ⟨rfl, (h.recovering hsome).2⟩
    · intro hsession
      have hpending := h.pending hsession
      simp only [World.pending, hrunning, List.countP_cons, List.countP_nil,
        Reconciliation.awaitsWatch, hstage', hwatching] at hpending
      simp only [World.pending, hcount, Bool.toNat_false]
      by_cases hactive : r.client = s.activeClient
      · simp only [hactive] at hpending
        cases harmed : s.armed with
        | true =>
            simp [harmed] at hpending ⊢
            exact hpending
        | false => simp [harmed] at hpending
      · have harmed := hreplaced hwatching hactive
        simp [hactive, harmed] at hpending ⊢
        exact hpending
  · rename_i hwatching
    refine ⟨hrest, h.active, h.watches, hrunning', h.recovering, ?_⟩
    intro hsession
    have hpending := h.pending hsession
    simp only [World.pending, hrunning, List.countP_cons, List.countP_nil,
      Reconciliation.awaitsWatch, hwatching] at hpending
    simp only [World.pending, hcount]
    simpa using hpending

/-- A reconciliation that awaits no watch goes on or ends. -/
theorem Armed.continues (h : Armed s) {running : List (Reconciliation urls)}
    (hrunning : s.running = [r]) (hrest : running.length ≤ 1)
    (hclient : ∀ r' ∈ running, r'.client = r.client)
    (hawaits : ∀ r' ∈ running, r'.awaitsWatch s.activeClient = false)
    (hstage : r.awaitsWatch s.activeClient = false) :
  Armed { s with running := running }
  := by
  have hr : r.client < s.clients := h.running r (by simp [hrunning])
  refine ⟨hrest, h.active, h.watches, ?_, h.recovering, ?_⟩
  · intro r' hr'
    rw [hclient r' hr']
    exact hr
  · intro hsession
    have hcount : running.countP (Reconciliation.awaitsWatch s.activeClient) = 0 := by
      apply List.countP_eq_zero.mpr
      intro r' hr'
      simp [hawaits r' hr']
    have hpending := h.pending hsession
    simp only [World.pending, hrunning, List.countP_cons, List.countP_nil, hstage] at hpending
    simp only [World.pending, hcount]
    simpa using hpending

/-- A server serves the read of the children. -/
theorem Armed.served (h : Armed s) (hrunning : s.running = [r]) (hstage : r.stage = .children)
    (names : Option (List JsString)) (number revision reads : ℕ) :
  Armed
    { s with
      running := [{ r with stage := .listed names, number := number, revision := revision }]
      watches := if r.watching ∧ names.isSome then r.client :: s.watches else s.watches
      reads := reads }
  := by
  have hr : r.client < s.clients := h.running r (by simp [hrunning])
  refine ⟨le_rfl, h.active, ?_, ?_, h.recovering, ?_⟩
  · intro client hmem
    dsimp only at hmem
    split at hmem
    · obtain rfl | hmem := List.mem_cons.mp hmem
      · exact hr
      · exact h.watches client hmem
    · exact h.watches client hmem
  · intro r' hr'
    rw [List.mem_singleton.mp hr']
    exact hr
  · intro hsession
    have hpending := h.pending hsession
    simp only [World.pending, hrunning, List.countP_cons, List.countP_nil,
      Reconciliation.awaitsWatch, hstage] at hpending
    rw [← hpending]
    simp only [World.pending, List.countP_cons, List.countP_nil, Reconciliation.awaitsWatch]
    cases names with
    | none => simp
    | some names =>
        cases hwatching : r.watching with
        | false => simp
        | true =>
            by_cases hactive : r.client = s.activeClient
            · simp [hactive]
            · simp [hactive]

/-- The callback of a watch. -/
theorem Armed.fired (h : Armed s) {client : ℕ} (hwatch : client ∈ s.watches)
    (hreplaced : client ≠ s.activeClient → s.armed = false) :
  Armed { s with armed := false, watches := s.watches.erase client }
  := by
  refine ⟨h.single, h.active, ?_, h.running, ?_, ?_⟩
  · intro client' hmem
    exact h.watches client' (List.mem_of_mem_erase hmem)
  · intro hsome
    exact ⟨rfl, (h.recovering hsome).2⟩
  · intro hsession
    have hpending := h.pending hsession
    simp only [World.pending] at hpending ⊢
    by_cases hactive : client = s.activeClient
    · have hcount : 0 < s.watches.count client := List.count_pos_iff.mpr hwatch
      rw [← hactive] at hpending ⊢
      rw [List.count_erase_self]
      cases harmed : s.armed with
      | true =>
          rw [harmed, Bool.toNat_true] at hpending
          rw [Bool.toNat_false]
          omega
      | false =>
          rw [harmed, Bool.toNat_false] at hpending
          omega
    · rw [List.count_erase_of_ne (Ne.symm hactive), hpending, hreplaced hactive]

theorem Armed.recover (h : Armed s) :
  Armed s.recover
  := by
  rw [World.recover]
  split
  · refine ⟨h.single, h.active, h.watches, h.running, ?_, ?_⟩
    · intro hsome
      exact ⟨(h.recovering hsome).1, rfl⟩
    · intro hsession
      exact absurd rfl hsession
  · refine ⟨h.single, h.active, h.watches, h.running, fun _ => ⟨rfl, rfl⟩, ?_⟩
    intro hsession
    exact absurd rfl hsession

/-- A new client has neither watches nor reconciliations. -/
theorem Armed.recovered (h : Armed s) (hrecovery : s.recovery.isSome = true)
    (hidle : s.outlet.aborted = true ∨ s.running = []) :
  Armed s.recovered
  := by
  apply Armed.reconcile
  · refine ⟨h.single, Nat.lt_succ_self _, ?_, ?_, nofun, ?_⟩
    · intro client hmem
      exact (h.watches client hmem).trans (Nat.lt_succ_self _)
    · intro r hr
      exact (h.running r hr).trans (Nat.lt_succ_self _)
    · intro _
      have hcount : s.watches.count s.clients = 0 := by
        apply List.count_eq_zero.mpr
        intro hmem
        exact absurd (h.watches _ hmem) (lt_irrefl _)
      have hawaits : s.running.countP (Reconciliation.awaitsWatch s.clients) = 0 := by
        apply List.countP_eq_zero.mpr
        intro r hr
        have hne : r.client ≠ s.clients := (h.running r hr).ne
        simp [Reconciliation.awaitsWatch, hne]
      simp only [World.pending, hcount, hawaits, (h.recovering hrecovery).1, Bool.toNat_false]
  · exact hidle.imp .inl id

variable {a : Action urls}

/-- A careful step keeps the armed flag right. -/
theorem Armed.step (h : Armed s) (hstep : Step options commits a s s') (hcareful : Careful s a) :
  Armed s'
  := by
  cases hstep with
  | commit | schedule | authenticationFailed | call => exact h.of_eq rfl rfl rfl rfl rfl id .rfl
  | @start _ n hscheduled hqueue =>
      have hqueue : Armed { s with scheduled := n } := h.of_eq rfl rfl rfl rfl rfl id .rfl
      exact hqueue.reconcile false hcareful
  | @served _ r l₁ l₂ hrunning hstage =>
      obtain ⟨rfl, rfl⟩ := h.running_eq hrunning
      have hserved := h.served hrunning hstage ((directoryAt commits s.revision).map childNames)
        s.reads s.revision (s.reads + 1)
      rw [Option.isSome_map] at hserved
      exact hserved
  | @listed _ r l₁ l₂ names hrunning hstage =>
      obtain ⟨rfl, rfl⟩ := h.running_eq hrunning
      cases names with
      | some names =>
          apply h.continues hrunning
          · exact le_rfl
          · simp
          · simp [Reconciliation.awaitsWatch]
          · simp [Reconciliation.awaitsWatch, hstage]
      | none =>
          apply h.resolved hrunning
          · exact le_rfl
          · simp
          · simp [Reconciliation.awaitsWatch]
          · exact .inr hstage
          · exact hcareful hstage
  | @childrenFailed _ r l₁ l₂ value hrunning hstage =>
      obtain ⟨rfl, rfl⟩ := h.running_eq hrunning
      apply Armed.caught
      by_cases hawaits : r.stage = .children ∨ r.stage = .listed none
      · apply h.resolved hrunning
        · exact zero_le_one
        · simp
        · simp
        · exact hawaits
        · intro hwatching
          exact (hcareful hwatching).2
      · -- the reply with the names is on its way, so the call sets no watch
        obtain hstage | ⟨⟨names, hstage⟩, -⟩ := hstage
        · exact absurd (.inl hstage) hawaits
        · cases names with
          | none => exact absurd (.inr hstage) hawaits
          | some names =>
              have hwatching : r.watching = false := by
                by_contra hwatching
                exact (hcareful (by simpa using hwatching)).1 names hstage
              rw [World.watchFailed, if_neg (by simp [hwatching])]
              apply h.continues hrunning
              · exact zero_le_one
              · simp
              · simp
              · simp [Reconciliation.awaitsWatch, hwatching]
  | @dataRead _ r l₁ l₂ segment remaining records hrunning hstage =>
      obtain ⟨rfl, rfl⟩ := h.running_eq hrunning
      cases readChild options.codec (directoryAt commits s.revision) segment with
      | ok found =>
          apply h.continues hrunning
          · exact le_rfl
          · simp
          · simp [Reconciliation.awaitsWatch]
          · simp [Reconciliation.awaitsWatch, hstage]
      | error e =>
          apply Armed.caught
          apply h.continues hrunning
          · exact zero_le_one
          · simp
          · simp
          · simp [Reconciliation.awaitsWatch, hstage]
  | @dataFailed _ r l₁ l₂ remaining records value hrunning hstage =>
      obtain ⟨rfl, rfl⟩ := h.running_eq hrunning
      apply Armed.caught
      apply h.continues hrunning
      · exact zero_le_one
      · simp
      · simp
      · simp [Reconciliation.awaitsWatch, hstage]
  | @published _ r l₁ l₂ records hrunning hstage =>
      obtain ⟨rfl, rfl⟩ := h.running_eq hrunning
      have hrest : Armed { s with running := ([] : List (Reconciliation urls)) } := by
        apply h.continues hrunning
        · exact zero_le_one
        · simp
        · simp
        · simp [Reconciliation.awaitsWatch, hstage]
      rw [World.publish]
      split
      · exact hrest.caught _
      · exact hrest.of_eq rfl rfl rfl rfl rfl id .rfl
  | fired hwatch => exact (h.fired hwatch hcareful).of_eq rfl rfl rfl rfl rfl id .rfl
  | disconnected hsession => exact h.of_eq rfl rfl rfl rfl rfl id (by simp [hsession])
  | connected hsession =>
      exact h.of_eq rfl rfl rfl rfl rfl id (by simp [World.schedule, hsession])
  | expired hsession => exact h.recover
  | closed hrecovery | recoveryFailed hrecovery value | waited hrecovery
  | interrupted hrecovery haborted =>
      exact h.of_eq rfl rfl rfl rfl rfl (fun _ => by simp [hrecovery]) .rfl
  | recovered hrecovery => exact h.recovered (by simp [hrecovery]) hcareful
  | abandoned hrecovery =>
      rw [World.abandoned]
      split
      · exact h.of_eq rfl rfl rfl rfl rfl (fun _ => by simp [hrecovery]) .rfl
      · exact h.of_eq rfl rfl rfl rfl rfl (fun _ => by simp [hrecovery]) .rfl

/-! ### The order of publications -/

/-- Snapshots were published in the order of their reads, and the read of the reconciliation
that runs is the last one. -/
structure Ordered (s : World urls) : Prop where
  published : ∀ n ∈ s.published, n < s.reads
  sorted : s.published.Pairwise (· < ·)
  running : ∀ r ∈ s.running, r.stage ≠ .children → r.number < s.reads ∧
    ∀ n ∈ s.published, n < r.number

theorem Ordered.of_eq (h : Ordered s)
    (hrunning : ∀ r' ∈ s'.running, r'.stage ≠ .children → ∃ r ∈ s.running, r.stage ≠ .children ∧ r'.number = r.number)
    (hreads : s'.reads = s.reads) (hpublished : s'.published = s.published) :
  Ordered s'
  := by
  obtain ⟨hlt, hsorted, hnumber⟩ := h
  constructor
  case published =>
    rw [hpublished, hreads]
    exact hlt
  case sorted =>
    rw [hpublished]
    exact hsorted
  case running =>
    intro r' hr' hstage'
    obtain ⟨r, hr, hstage, heq⟩ := hrunning r' hr' hstage'
    rw [hpublished, hreads, heq]
    exact hnumber r hr hstage

/-- The reconciliations stay as they are. -/
theorem Ordered.same (h : Ordered s) (hrunning : s'.running = s.running)
    (hreads : s'.reads = s.reads) (hpublished : s'.published = s.published) :
  Ordered s'
  := by
  apply h.of_eq _ hreads hpublished
  intro r' hr' hstage'
  rw [hrunning] at hr'
  exact ⟨r', hr', hstage', rfl⟩

theorem Ordered.reconcile (h : Ordered s) (own : Bool) :
  Ordered (s.reconcile own)
  := by
  rw [World.reconcile]
  split
  · exact h
  · refine h.of_eq ?_ rfl rfl
    intro r' hr' hstage'
    obtain hr' | hr' := List.mem_append.mp hr'
    · exact ⟨r', hr', hstage', rfl⟩
    · rw [List.mem_singleton.mp hr'] at hstage'
      exact absurd rfl hstage'

theorem Ordered.caught (h : Ordered s) (value : Thrown) :
  Ordered (s.caught value)
  := by
  rw [World.caught]
  split
  · exact h.same rfl rfl rfl
  · exact h.same rfl rfl rfl

theorem Ordered.watchFailed (h : Ordered s) (r : Reconciliation urls) :
  Ordered (s.watchFailed r)
  := by
  rw [World.watchFailed]
  split
  · exact h.same rfl rfl rfl
  · exact h

/-- The only reconciliation goes on after its read. -/
theorem Ordered.continues (h : Ordered s) {r' : Reconciliation urls} (hrunning : s.running = [r])
    (hstage : r.stage ≠ .children) (hnumber : r'.number = r.number) :
  Ordered { s with running := [r'] }
  := by
  refine h.of_eq ?_ rfl rfl
  intro r'' hr'' _
  rw [List.mem_singleton.mp hr'']
  exact ⟨r, by simp [hrunning], hstage, hnumber⟩

/-- No reconciliation runs any longer. -/
theorem Ordered.ends (h : Ordered s) :
  Ordered { s with running := ([] : List (Reconciliation urls)) }
  := by
  refine h.of_eq ?_ rfl rfl
  intro r' hr'
  exact absurd hr' List.not_mem_nil

variable {records : List (DecodedRecord urls)}

/-- The snapshot of the only reconciliation is published. -/
theorem Ordered.publish (h : Ordered s) (hrunning : s.running = [r])
    (hstage : r.stage = .data [] records) :
  Ordered (World.publish options { s with running := ([] : List (Reconciliation urls)) } r records)
  := by
  obtain ⟨hread, hlast⟩ := h.running r (by simp [hrunning]) (by simp [hstage])
  rw [World.publish]
  split
  · exact h.ends.caught _
  · constructor
    case published =>
      intro n hmem
      obtain hmem | hmem := List.mem_append.mp hmem
      · exact h.published n hmem
      · rw [List.mem_singleton.mp hmem]
        exact hread
    case sorted =>
      apply List.pairwise_append.mpr
      refine ⟨h.sorted, List.pairwise_singleton _ _, ?_⟩
      intro n hmem n' hmem'
      rw [List.mem_singleton.mp hmem']
      exact hlast n hmem
    case running => nofun

theorem Ordered.step (h : Ordered s) (harmed : Armed s) (hstep : Step options commits a s s') :
  Ordered s'
  := by
  cases hstep with
  | commit | schedule | fired | disconnected | connected | authenticationFailed | closed
  | recoveryFailed | waited | interrupted | call => exact h.same rfl rfl rfl
  | @start _ n hscheduled hqueue =>
      have hqueue : Ordered { s with scheduled := n } := h.same rfl rfl rfl
      exact hqueue.reconcile false
  | @served _ r l₁ l₂ hrunning hstage =>
      obtain ⟨rfl, rfl⟩ := harmed.running_eq hrunning
      constructor
      case published =>
        intro n hmem
        exact (h.published n hmem).trans (Nat.lt_succ_self _)
      case sorted => exact h.sorted
      case running =>
        intro r' hr' _
        rw [List.mem_singleton.mp hr']
        exact ⟨Nat.lt_succ_self _, h.published⟩
  | @listed _ r l₁ l₂ names hrunning hstage =>
      obtain ⟨rfl, rfl⟩ := harmed.running_eq hrunning
      cases names with
      | some names => exact h.continues hrunning (by simp [hstage]) rfl
      | none =>
          apply Ordered.watchFailed
          exact h.continues hrunning (by simp [hstage]) rfl
  | @childrenFailed _ r l₁ l₂ value hrunning hstage =>
      obtain ⟨rfl, rfl⟩ := harmed.running_eq hrunning
      exact (h.ends.watchFailed r).caught value
  | @dataRead _ r l₁ l₂ segment remaining records hrunning hstage =>
      obtain ⟨rfl, rfl⟩ := harmed.running_eq hrunning
      cases readChild options.codec (directoryAt commits s.revision) segment with
      | ok found => exact h.continues hrunning (by simp [hstage]) rfl
      | error e => exact h.ends.caught _
  | @dataFailed _ r l₁ l₂ remaining records value hrunning hstage =>
      obtain ⟨rfl, rfl⟩ := harmed.running_eq hrunning
      exact h.ends.caught value
  | @published _ r l₁ l₂ records hrunning hstage =>
      obtain ⟨rfl, rfl⟩ := harmed.running_eq hrunning
      exact h.publish hrunning hstage
  | expired hsession =>
      rw [World.recover]
      split
      · exact h.same rfl rfl rfl
      · exact h.same rfl rfl rfl
  | recovered hrecovery =>
      apply Ordered.reconcile
      exact h.same rfl rfl rfl
  | abandoned hrecovery =>
      rw [World.abandoned]
      split
      · exact h.same rfl rfl rfl
      · exact h.same rfl rfl rfl

/-! ### What is read -/

theorem directoryAt_unchanged {a b : ℕ} (hle : a ≤ b) (h : Unchanged commits a b) :
  directoryAt commits b = directoryAt commits a
  := stateAt_unchanged hle h

/-- What a reconciliation will publish if the directory stays as it is. -/
def Stage.result (options : WatcherOptions urls) (directory : Directory) :
    Stage urls → Except RegistryError (List (ServiceInstance urls))
  | .children => serviceInstances options.codec options.serviceName directory
  | .listed none => sortedInstances [] options.serviceName
  | .listed (some names) => do
      let records ← readChildren options.codec directory names
      sortedInstances records options.serviceName
  | .data remaining records => do
      let others ← readChildren options.codec directory remaining
      sortedInstances (records ++ others) options.serviceName

/-- The instances of the service at a revision. -/
def instancesAt (options : WatcherOptions urls) (commits : Commits) (revision : ℕ) :
    Except RegistryError (List (ServiceInstance urls)) :=
  serviceInstances options.codec options.serviceName (directoryAt commits revision)

/-- If nothing has changed since the reconciliation read the children, then it will publish
the instances of the service. -/
def Reads (options : WatcherOptions urls) (commits : Commits) (revision : ℕ)
    (r : Reconciliation urls) : Prop :=
  r.stage ≠ .children → r.revision ≤ revision ∧ (Unchanged commits r.revision revision →
    r.stage.result options (directoryAt commits revision) = instancesAt options commits revision)

/-- If nothing has changed since the last reconciliation read the children, and it has
succeeded, then the snapshot is current. -/
def Fresh (options : WatcherOptions urls) (commits : Commits) (s : World urls) : Prop :=
  ∀ v, s.last = some (some v) → v ≤ s.revision ∧ (Unchanged commits v s.revision →
    instancesAt options commits s.revision = .ok s.outlet.current)

/-- What has been read is not stale. -/
structure Reading (options : WatcherOptions urls) (commits : Commits) (s : World urls) :
    Prop where
  running : ∀ r ∈ s.running, Reads options commits s.revision r
  last : Fresh options commits s

theorem result_served (directory : Directory) :
  (Stage.listed (directory.map childNames)).result options directory =
    serviceInstances options.codec options.serviceName directory
  := by
  cases directory with
  | none | some => rfl

theorem result_dataRead {directory : Directory} {segment : JsString} {remaining : List JsString}
    {found : List (DecodedRecord urls)}
    (hfound : readChild options.codec directory segment = .ok found) :
  (Stage.data (segment :: remaining) records).result options directory =
    (Stage.data remaining (records ++ found)).result options directory
  := by
  rw [Stage.result, Stage.result, readChildren, hfound]
  cases readChildren options.codec directory remaining with
  | error e => rfl
  | ok others =>
      have happend : records ++ (found ++ others) = records ++ found ++ others :=
        (List.append_assoc _ _ _).symm
      exact congrArg (sortedInstances · options.serviceName) happend

theorem result_published (directory : Directory) (records : List (DecodedRecord urls)) :
  (Stage.data [] records).result options directory =
    sortedInstances records options.serviceName
  := congrArg (sortedInstances · options.serviceName) (List.append_nil records)

/-- A step that keeps the tree and the snapshot. -/
theorem Reading.of_eq (h : Reading options commits s)
    (hrunning : ∀ r ∈ s'.running, r ∈ s.running ∨ Reads options commits s.revision r)
    (hrevision : s'.revision = s.revision) (hcurrent : s'.outlet.current = s.outlet.current)
    (hlast : s'.last = s.last ∨ s'.last = some none) :
  Reading options commits s'
  := by
  constructor
  case running =>
    intro r hr
    rw [hrevision]
    obtain hr | hreads := hrunning r hr
    · exact h.running r hr
    · exact hreads
  case last =>
    intro v hv
    rw [hrevision, hcurrent]
    obtain hlast | hlast := hlast
    · rw [hlast] at hv
      exact h.last v hv
    · rw [hlast] at hv
      cases hv

/-- A step that concerns no reconciliation. -/
theorem Reading.same (h : Reading options commits s) (hrunning : s'.running = s.running)
    (hrevision : s'.revision = s.revision) (hcurrent : s'.outlet.current = s.outlet.current)
    (hlast : s'.last = s.last) :
  Reading options commits s'
  := by
  apply h.of_eq _ hrevision hcurrent (.inl hlast)
  intro r hr
  rw [hrunning] at hr
  exact .inl hr

theorem Reads.commit {revision : ℕ} (h : Reads options commits revision r) :
  Reads options commits (revision + 1) r
  := by
  intro hstage
  obtain ⟨hle, hresult⟩ := h hstage
  refine ⟨hle.trans revision.le_succ, ?_⟩
  intro hunchanged
  have hdirectory : directoryAt commits (revision + 1) = directoryAt commits revision :=
    directoryAt_unchanged revision.le_succ (hunchanged.mono hle le_rfl)
  rw [instancesAt, hdirectory]
  exact hresult (hunchanged.mono le_rfl revision.le_succ)

theorem Reading.commit (h : Reading options commits s) :
  Reading options commits { s with revision := s.revision + 1 }
  := by
  constructor
  case running =>
    intro r hr
    exact (h.running r hr).commit
  case last =>
    intro v hv
    obtain ⟨hle, hcurrent⟩ := h.last v hv
    refine ⟨hle.trans (Nat.le_succ _), ?_⟩
    intro hunchanged
    have hdirectory : directoryAt commits (s.revision + 1) = directoryAt commits s.revision :=
      directoryAt_unchanged (Nat.le_succ _) (hunchanged.mono hle le_rfl)
    rw [instancesAt, hdirectory]
    exact hcurrent (hunchanged.mono le_rfl (Nat.le_succ _))

theorem Reading.reconcile (h : Reading options commits s) (own : Bool) :
  Reading options commits (s.reconcile own)
  := by
  rw [World.reconcile]
  split
  · exact h
  · refine h.of_eq ?_ rfl rfl (.inl rfl)
    intro r hr
    obtain hr | hr := List.mem_append.mp hr
    · exact .inl hr
    · right
      intro hstage
      rw [List.mem_singleton.mp hr] at hstage
      exact absurd rfl hstage

theorem Reading.caught (h : Reading options commits s) (value : Thrown) :
  Reading options commits (s.caught value)
  := by
  rw [World.caught]
  split
  · exact h.of_eq (fun r hr => .inl hr) rfl rfl (.inr rfl)
  · exact h.of_eq (fun r hr => .inl hr) rfl (Outlet.current_fail _ _) (.inr rfl)

theorem Reading.watchFailed (h : Reading options commits s) (r : Reconciliation urls) :
  Reading options commits (s.watchFailed r)
  := by
  rw [World.watchFailed]
  split
  · exact h.same rfl rfl rfl rfl
  · exact h

/-- A reconciliation goes on. -/
theorem Reading.continues (h : Reading options commits s) {r' : Reconciliation urls}
    (hrunning : s.running = l₁ ++ r :: l₂) (hreads : Reads options commits s.revision r') :
  Reading options commits { s with running := l₁ ++ r' :: l₂ }
  := by
  refine h.of_eq ?_ rfl rfl (.inl rfl)
  intro r'' hr''
  rw [hrunning]
  obtain hr'' | hr'' := List.mem_append.mp hr''
  · exact .inl (List.mem_append_left _ hr'')
  · obtain rfl | hr'' := List.mem_cons.mp hr''
    · exact .inr hreads
    · exact .inl (List.mem_append_right _ (List.mem_cons_of_mem _ hr''))

/-- A reconciliation ends. -/
theorem Reading.ends (h : Reading options commits s) (hrunning : s.running = l₁ ++ r :: l₂) :
  Reading options commits { s with running := l₁ ++ l₂ }
  := by
  refine h.of_eq ?_ rfl rfl (.inl rfl)
  intro r' hr'
  left
  rw [hrunning]
  obtain hr' | hr' := List.mem_append.mp hr'
  · exact List.mem_append_left _ hr'
  · exact List.mem_append_right _ (List.mem_cons_of_mem _ hr')

/-- The snapshot of a reconciliation is published. -/
theorem Reading.publish (h : Reading options commits s) (hrunning : s.running = l₁ ++ r :: l₂)
    (hstage : r.stage = .data [] records) :
  Reading options commits (World.publish options { s with running := l₁ ++ l₂ } r records)
  := by
  obtain ⟨hle, hresult⟩ := h.running r (by simp [hrunning]) (by simp [hstage])
  rw [World.publish]
  split
  · exact (h.ends hrunning).caught _
  · rename_i next hnext
    constructor
    case running => exact (h.ends hrunning).running
    case last =>
      rintro v ⟨⟩
      refine ⟨hle, ?_⟩
      intro hunchanged
      rw [← hresult hunchanged, hstage, result_published, hnext]
      exact congrArg _ (Outlet.current_publish _ _).symm

/-- A step keeps what has been read. -/
theorem Reading.step (h : Reading options commits s) (hstep : Step options commits a s s') :
  Reading options commits s'
  := by
  cases hstep with
  | commit => exact h.commit
  | schedule | fired | disconnected | connected | closed | recoveryFailed | waited
  | interrupted => exact h.same rfl rfl rfl rfl
  | @start _ n hscheduled hqueue =>
      have hqueue : Reading options commits { s with scheduled := n } := h.same rfl rfl rfl rfl
      exact hqueue.reconcile false
  | @served _ r l₁ l₂ hrunning hstage =>
      have hreads : Reads options commits s.revision
          { r with
            stage := .listed ((directoryAt commits s.revision).map childNames)
            number := s.reads
            revision := s.revision } := by
        intro _
        exact ⟨le_rfl, fun _ => result_served _⟩
      exact (h.continues hrunning hreads).same rfl rfl rfl rfl
  | @listed _ r l₁ l₂ names hrunning hstage =>
      have hreads := h.running r (by simp [hrunning])
      rw [Reads, hstage] at hreads
      cases names with
      | some names =>
          apply h.continues hrunning
          intro _
          exact hreads nofun
      | none =>
          apply Reading.watchFailed
          apply h.continues hrunning
          intro _
          exact hreads nofun
  | @childrenFailed _ r l₁ l₂ value hrunning hstage =>
      exact ((h.ends hrunning).watchFailed r).caught value
  | @dataRead _ r l₁ l₂ segment remaining records hrunning hstage =>
      have hreads := h.running r (by simp [hrunning])
      rw [Reads, hstage] at hreads
      cases hfound : readChild options.codec (directoryAt commits s.revision) segment with
      | ok found =>
          apply h.continues hrunning
          intro _
          rw [result_dataRead hfound] at hreads
          exact hreads nofun
      | error e => exact (h.ends hrunning).caught _
  | @dataFailed _ r l₁ l₂ remaining records value hrunning hstage =>
      exact (h.ends hrunning).caught value
  | @published _ r l₁ l₂ records hrunning hstage => exact h.publish hrunning hstage
  | expired hsession =>
      rw [World.recover]
      split
      · exact h.same rfl rfl rfl rfl
      · exact h.same rfl rfl rfl rfl
  | authenticationFailed => exact h.same rfl rfl (Outlet.current_fail _ _) rfl
  | recovered hrecovery =>
      apply Reading.reconcile
      exact h.same rfl rfl rfl rfl
  | abandoned hrecovery =>
      rw [World.abandoned]
      split
      · exact h.same rfl rfl rfl rfl
      · exact h.same rfl rfl (Outlet.current_fail _ _) rfl
  | call call => exact h.same rfl rfl (Outlet.current_perform _ _) rfl

/-! ### Coherence -/

/-- What careful steps keep. -/
structure Invariant (options : WatcherOptions urls) (commits : Commits) (s : World urls) :
    Prop where
  armed : Armed s
  ordered : Ordered s
  reading : Reading options commits s

theorem Invariant.run (h : Invariant options commits s)
    (hrun : ReflTransGen (CarefulStep options commits) s s') :
  Invariant options commits s'
  := by
  induction hrun with
  | refl => exact h
  | tail _ hstep ih =>
      obtain ⟨a, hstep, hcareful⟩ := hstep
      constructor
      case armed => exact ih.armed.step hstep hcareful
      case ordered => exact ih.ordered.step ih.armed hstep
      case reading => exact ih.reading.step hstep

/-- A step, careful or not. -/
def AnyStep {urls : UrlParser} (options : WatcherOptions urls) (commits : Commits)
    (s s' : World urls) : Prop :=
  ∃ a, Step options commits a s s'

end Registry.Zookeeper
