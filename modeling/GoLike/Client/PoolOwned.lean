import GoLike.Client.Pool

/-!
# The owners of a client

An owner is idle, lent to one attempt, or is being closed. The idle set and the lists of the
addresses have the same owners, and every owner that is not being closed is a connection, so
that closing the connections closes every owner.
-/

namespace Client

variable {A : Type} [DecidableEq A] {maxIdle idleTtlMs : ℕ}

/-! ### The lists of the addresses -/

/-- An owner is in the list of its address. -/
def Listed (lists : A → Option (List (Owner A))) (client : Owner A) : Prop :=
  ∃ owners, lists client.address = some owners ∧ client ∈ owners

/-- Every list has owners of its address, each once. -/
def WellListed (lists : A → Option (List (Owner A))) : Prop :=
  ∀ address owners, lists address = some owners →
    owners.Nodup ∧ ∀ client ∈ owners, client.address = address

variable {lists : A → Option (List (Owner A))}

omit [DecidableEq A] in
/-- A list that is dropped when it is empty has the same owners. -/
theorem mem_unlessEmpty (owners : List (Owner A)) (client : Owner A) [Decidable (owners = [])] :
  (∃ l, (if owners = [] then none else some owners) = some l ∧ client ∈ l) ↔ client ∈ owners
  := by
  split
  case isTrue hempty =>
    subst hempty
    constructor
    · rintro ⟨l, ⟨⟩, -⟩
    · exact fun h => absurd h List.not_mem_nil
  case isFalse hnonempty =>
    constructor
    · rintro ⟨l, hl, hclient⟩
      cases hl
      exact hclient
    · exact fun h => ⟨owners, rfl, h⟩

/-- The owners in the lists after one of them has changed. -/
theorem listed_update (address : A) (owners : Option (List (Owner A))) (client : Owner A) :
  Listed (Function.update lists address owners) client ↔
    (client.address = address ∧ ∃ l, owners = some l ∧ client ∈ l) ∨
      (client.address ≠ address ∧ Listed lists client)
  := by
  rw [Listed]
  by_cases haddress : client.address = address
  · rw [haddress, Function.update_self]
    simp
  · rw [Function.update_of_ne haddress]
    simp [haddress, Listed]

theorem WellListed.update (h : WellListed lists) {address : A} {owners : Option (List (Owner A))}
    (howners : ∀ l, owners = some l → l.Nodup ∧ ∀ client ∈ l, client.address = address) :
  WellListed (Function.update lists address owners)
  := by
  intro a l hl
  by_cases ha : a = address
  · subst ha
    rw [Function.update_self] at hl
    exact howners l hl
  · rw [Function.update_of_ne ha] at hl
    exact h a l hl

/-- Only the owner is removed. -/
theorem WellListed.remove (h : WellListed lists) (client : Owner A) :
  WellListed (Pool.removeByAddress lists client) ∧
    ∀ x, Listed (Pool.removeByAddress lists client) x ↔ Listed lists x ∧ x ≠ client
  := by
  rw [Pool.removeByAddress]
  split
  case h_1 hnone =>
    refine ⟨h, fun x => ⟨fun hx => ⟨hx, ?_⟩, And.left⟩⟩
    rintro rfl
    obtain ⟨owners, howners, -⟩ := hx
    rw [hnone] at howners
    cases howners
  case h_2 owners howners =>
    obtain ⟨hnodup, haddress⟩ := h client.address owners howners
    refine ⟨h.update ?_, fun x => ?_⟩
    · intro l hl
      split at hl
      · cases hl
      · cases hl
        exact ⟨hnodup.erase client, fun x hx => haddress x (List.mem_of_mem_erase hx)⟩
    · rw [listed_update, mem_unlessEmpty, hnodup.mem_erase_iff]
      by_cases hx : x.address = client.address
      · simp only [Listed, hx, howners, Option.some.injEq, exists_eq_left', true_and, ne_eq,
          not_true_eq_false, false_and, or_false]
        exact And.comm
      · have hne : x ≠ client := fun he => hx (congrArg Owner.address he)
        simp [hx, hne]

/-- Only the owner is added. -/
theorem WellListed.add (h : WellListed lists) {client : Owner A} (hnew : ¬ Listed lists client) :
  WellListed (Pool.addByAddress lists client) ∧
    ∀ x, Listed (Pool.addByAddress lists client) x ↔ Listed lists x ∨ x = client
  := by
  rw [Pool.addByAddress]
  split
  case h_1 hnone =>
    refine ⟨h.update ?_, fun x => ?_⟩
    · intro l hl
      cases hl
      exact ⟨List.nodup_singleton client, by simp⟩
    · rw [listed_update]
      by_cases hx : x.address = client.address
      · simp [hx, hnone, Listed]
      · have hne : x ≠ client := fun he => hx (congrArg Owner.address he)
        simp [hx, hne]
  case h_2 owners howners =>
    obtain ⟨hnodup, haddress⟩ := h client.address owners howners
    have hfresh : client ∉ owners := fun hclient => hnew ⟨owners, howners, hclient⟩
    refine ⟨h.update ?_, fun x => ?_⟩
    · intro l hl
      cases hl
      refine ⟨hnodup.append (List.nodup_singleton client) (by simpa using hfresh), ?_⟩
      intro x hx
      obtain hx | hx := List.mem_append.mp hx
      · exact haddress x hx
      · rw [List.mem_singleton.mp hx]
    · rw [listed_update]
      by_cases hx : x.address = client.address
      · simp [hx, howners, Listed]
      · have hne : x ≠ client := fun he => hx (congrArg Owner.address he)
        simp [hx, hne]

omit [DecidableEq A] in
/-- The list of an address without its last owner. -/
theorem dropLast_eq_erase [DecidableEq (Owner A)] {owners : List (Owner A)} {last : Owner A}
    (hnodup : owners.Nodup) (hlast : owners.getLast? = some last) :
  owners.dropLast = owners.erase last
  := by
  obtain ⟨init, rfl⟩ := List.getLast?_eq_some_iff.mp hlast
  have hnot : last ∉ init := by
    intro hmem
    exact (List.nodup_append.mp hnodup).2.2 last hmem last List.mem_cons_self rfl
  rw [List.dropLast_concat, List.erase_append_right _ hnot, List.erase_cons_head, List.append_nil]

/-! ### The pool -/

/-- How often the close of an owner has been called. -/
def closeCount : Option Closing → ℕ
  | some .called => 1
  | some .settled => 1
  | _ => 0

/-- What holds of a pool. -/
structure Pool.Sound (p : Pool A) : Prop where
  nodup : p.idle.Nodup
  lists : WellListed p.idleByAddress
  listed : ∀ x, x ∈ p.idle ↔ Listed p.idleByAddress x
  idle : ∀ x ∈ p.idle, x ∈ p.connections ∧ x ∉ p.active ∧ (p.residents x).closing = none
  active : ∀ x ∈ p.active, x ∈ p.admitted ∧ (p.residents x).closing = none
  connections : ∀ x ∈ p.connections, x ∈ p.admitted
  kept : ∀ x ∈ p.admitted, (p.residents x).closing = none → x ∈ p.connections
  number : ∀ x ∈ p.admitted, x.number < p.admitted.length
  calls : ∀ x, (p.residents x).closeCalls = closeCount (p.residents x).closing

/-- An owner that is lent. -/
structure Pool.Lends (p : Pool A) (x : Owner A) : Prop where
  admitted : x ∈ p.admitted
  idle : x ∉ p.idle
  active : (p.residents x).closing = none → x ∈ p.active

/-- Owners are closed, and nothing else happens. -/
structure Pool.Closes (p p' : Pool A) : Prop where
  sound : p'.Sound
  admitted : p'.admitted = p.admitted
  connections : p'.connections = p.connections
  closed : p'.closed = p.closed
  idle : ∀ x ∈ p'.idle, x ∈ p.idle
  active : ∀ x, (p'.residents x).closing = none →
    (p.residents x).closing = none ∧ (x ∈ p.active → x ∈ p'.active)

namespace Pool

variable {p p' p'' : Pool A} {client x : Owner A}

omit [DecidableEq A] in
theorem sound_newPool :
  (newPool : Pool A).Sound
  := by
  constructor
  case nodup => exact List.nodup_nil
  case lists => rintro _ _ ⟨⟩
  case listed =>
    intro x
    constructor
    · exact fun hx => absurd hx List.not_mem_nil
    · rintro ⟨_, ⟨⟩, -⟩
  case idle => exact fun x hx => absurd hx List.not_mem_nil
  case active => exact fun x hx => absurd hx (Finset.notMem_empty x)
  case connections => exact fun x hx => absurd hx List.not_mem_nil
  case kept => exact fun x hx => absurd hx List.not_mem_nil
  case number => exact fun x hx => absurd hx List.not_mem_nil
  case calls => exact fun x => rfl

omit [DecidableEq A] in
theorem Closes.refl (h : p.Sound) :
  p.Closes p
  := by
  exact ⟨h, rfl, rfl, rfl, fun _ hx => hx, fun _ hx => ⟨hx, fun ha => ha⟩⟩

omit [DecidableEq A] in
theorem Closes.trans (h : p.Closes p') (h' : p'.Closes p'') :
  p.Closes p''
  := by
  constructor
  case sound => exact h'.sound
  case admitted => exact h'.admitted.trans h.admitted
  case connections => exact h'.connections.trans h.connections
  case closed => exact h'.closed.trans h.closed
  case idle => exact fun x hx => h.idle x (h'.idle x hx)
  case active =>
    intro x hx
    obtain ⟨hx', hactive'⟩ := h'.active x hx
    obtain ⟨hx'', hactive⟩ := h.active x hx'
    exact ⟨hx'', fun ha => hactive' (hactive ha)⟩

omit [DecidableEq A] in
theorem Closes.lends (h : p.Closes p') (hx : p.Lends x) :
  p'.Lends x
  := by
  constructor
  case admitted =>
    rw [h.admitted]
    exact hx.admitted
  case idle => exact fun hidle => hx.idle (h.idle x hidle)
  case active =>
    intro hnone
    obtain ⟨hbefore, hactive⟩ := h.active x hnone
    exact hactive (hx.active hbefore)

/-- The variables of an owner after those of one owner have been set. -/
theorem residents_setResident (p : Pool A) (client : Owner A) (resident : Resident) (x : Owner A) :
  (p.setResident client resident).residents x = if x = client then resident else p.residents x
  := by
  exact Function.update_apply p.residents client resident x

/-- An idle timer is set or cleared. -/
theorem Sound.setTimer (h : p.Sound) (client : Owner A) (timer : Option ℕ) :
  (p.setResident client { p.residents client with idleTimer := timer }).Sound
  := by
  have hclosing : ∀ x, ((p.setResident client
      { p.residents client with idleTimer := timer }).residents x).closing =
      (p.residents x).closing := by
    intro x
    rw [residents_setResident]
    split
    · rename_i hx
      rw [hx]
    · rfl
  constructor
  case nodup => exact h.nodup
  case lists => exact h.lists
  case listed => exact h.listed
  case idle =>
    intro x hx
    rw [hclosing]
    exact h.idle x hx
  case active =>
    intro x hx
    rw [hclosing]
    exact h.active x hx
  case connections => exact h.connections
  case kept =>
    intro x hx
    rw [hclosing]
    exact h.kept x hx
  case number => exact h.number
  case calls =>
    intro x
    rw [hclosing, residents_setResident, ← h.calls]
    split
    · rename_i hx
      rw [hx]
    · rfl

theorem closing_setTimer (p : Pool A) (client : Owner A) (timer : Option ℕ) (x : Owner A) :
  ((p.setResident client { p.residents client with idleTimer := timer }).residents x).closing =
    (p.residents x).closing
  := by
  rw [residents_setResident]
  split
  · rename_i hx
    rw [hx]
  · rfl

/-- What is read after an owner that is not being closed was closed. -/
theorem closing_schedule (p : Pool A) (client : Owner A) (timer : Option ℕ) (calls : ℕ)
    (x : Owner A) (h : ((p.setResident client ⟨timer, some .scheduled, calls⟩).residents x).closing = none) :
  x ≠ client ∧ (p.residents x).closing = none
  := by
  rw [residents_setResident] at h
  split at h
  · cases h
  · rename_i hx
    exact ⟨hx, h⟩

/-- An owner that is not being closed, and whose idle timer has been cleared, is closed. -/
theorem Sound.schedule (h : p.Sound) (hnone : (p.residents client).closing = none)
    {idle : List (Owner A)} {lists : A → Option (List (Owner A))} {timer : Option ℕ}
    (hidle : idle.Nodup) (hmem : ∀ x, x ∈ idle ↔ x ∈ p.idle ∧ x ≠ client)
    (hlists : WellListed lists) (hlisted : ∀ x, x ∈ idle ↔ Listed lists x) :
  p.Closes
    (setResident { p with idle := idle, idleByAddress := lists, active := p.active.erase client }
      client ⟨timer, some .scheduled, (p.residents client).closeCalls⟩)
  := by
  have hclosing := closing_schedule
    { p with idle := idle, idleByAddress := lists, active := p.active.erase client } client timer
    (p.residents client).closeCalls
  have hother : ∀ x, x ≠ client → (setResident
      { p with idle := idle, idleByAddress := lists, active := p.active.erase client }
      client ⟨timer, some .scheduled, (p.residents client).closeCalls⟩).residents x =
      p.residents x := by
    intro x hx
    rw [residents_setResident, if_neg hx]
  constructor
  case sound =>
    constructor
    case nodup => exact hidle
    case lists => exact hlists
    case listed => exact hlisted
    case idle =>
      intro x hx
      obtain ⟨hbefore, hne⟩ := (hmem x).mp hx
      obtain ⟨hconnections, hactive, hopen⟩ := h.idle x hbefore
      rw [hother x hne]
      exact ⟨hconnections, fun ha => hactive (Finset.mem_of_mem_erase ha), hopen⟩
    case active =>
      intro x hx
      rw [hother x (Finset.ne_of_mem_erase hx)]
      exact h.active x (Finset.mem_of_mem_erase hx)
    case connections => exact h.connections
    case kept => exact fun x hx hopen => h.kept x hx (hclosing x hopen).2
    case number => exact h.number
    case calls =>
      intro x
      by_cases hx : x = client
      · rw [residents_setResident, if_pos hx, h.calls, hnone]
        rfl
      · rw [hother x hx]
        exact h.calls x
  case admitted => rfl
  case connections => rfl
  case closed => rfl
  case idle => exact fun x hx => ((hmem x).mp hx).1
  case active =>
    intro x hx
    obtain ⟨hne, hopen⟩ := hclosing x hx
    exact ⟨hopen, fun ha => Finset.mem_erase.mpr ⟨hne, ha⟩⟩

/-- Setting or clearing an idle timer closes nothing. -/
theorem Sound.closes_setTimer (h : p.Sound) (client : Owner A) (timer : Option ℕ) :
  p.Closes (p.setResident client { p.residents client with idleTimer := timer })
  := by
  refine ⟨h.setTimer client timer, rfl, rfl, rfl, fun _ hx => hx, fun x hx => ?_⟩
  rw [closing_setTimer] at hx
  exact ⟨hx, fun ha => ha⟩

theorem Sound.armIdleTimer (h : p.Sound) (client : Owner A) :
  p.Closes (p.armIdleTimer idleTtlMs client)
  := by
  rw [Pool.armIdleTimer]
  split
  case isTrue => exact .refl h
  case isFalse =>
    obtain ⟨hsound, hadmitted, hconnections, hclosed, hidle, hactive⟩ :=
      h.closes_setTimer client (some p.timers)
    refine ⟨⟨hsound.nodup, hsound.lists, hsound.listed, hsound.idle, hsound.active,
      hsound.connections, hsound.kept, hsound.number, hsound.calls⟩, hadmitted, hconnections,
      hclosed, hidle, hactive⟩

/-- An owner is closed. -/
theorem Sound.closeResident (h : p.Sound) (client : Owner A) :
  p.Closes (p.closeResident client)
  := by
  have htimer : p.Closes (p.clearIdleTimer client) := h.closes_setTimer client none
  have hq := htimer.sound
  refine htimer.trans ?_
  rw [Pool.closeResident]
  generalize p.clearIdleTimer client = q at hq
  dsimp only
  split
  case isTrue hclosing => exact .refl hq
  case isFalse hclosing =>
    have hnone : (q.residents client).closing = none := Option.not_isSome_iff_eq_none.mp hclosing
    split
    case isTrue hmem =>
      obtain ⟨hlists, hlisted⟩ := hq.lists.remove client
      refine hq.schedule hnone (hq.nodup.erase client) (fun x => ?_) hlists (fun x => ?_)
      · rw [hq.nodup.mem_erase_iff]
        exact And.comm
      · rw [hlisted, hq.nodup.mem_erase_iff, hq.listed]
        exact And.comm
    case isFalse hmem =>
      refine hq.schedule hnone hq.nodup (fun x => ⟨fun hx => ⟨hx, ?_⟩, And.left⟩) hq.lists
        hq.listed
      rintro rfl
      exact hmem hx

/-- A closed owner is being closed. -/
theorem closing_closeResident (p : Pool A) (client : Owner A) :
  ((p.closeResident client).residents client).closing ≠ none
  := by
  rw [Pool.closeResident]
  generalize p.clearIdleTimer client = q
  dsimp only
  split
  case isTrue hclosing => exact Option.isSome_iff_ne_none.mp hclosing
  case isFalse hclosing =>
    rw [residents_setResident, if_pos rfl]
    exact Option.some_ne_none _

theorem Sound.closeAll (h : p.Sound) (clients : List (Owner A)) :
  p.Closes (clients.foldl Pool.closeResident p) ∧
    ∀ x ∈ clients, ((clients.foldl Pool.closeResident p).residents x).closing ≠ none
  := by
  induction clients generalizing p with
  | nil => exact ⟨.refl h, fun x hx => absurd hx List.not_mem_nil⟩
  | cons client clients ih =>
      have hfirst := h.closeResident client
      obtain ⟨hrest, hclosing⟩ := ih hfirst.sound
      rw [List.foldl_cons]
      refine ⟨hfirst.trans hrest, ?_⟩
      intro x hx
      obtain rfl | hx := List.mem_cons.mp hx
      · exact fun hopen => closing_closeResident p x (hrest.active x hopen).1
      · exact hclosing x hx

/-- The idle set is bounded after enough rounds. -/
theorem Sound.evict (h : p.Sound) (rounds : ℕ) (hrounds : p.idle.length ≤ maxIdle + rounds) :
  p.Closes (p.evict maxIdle rounds) ∧ (p.evict maxIdle rounds).idle.length ≤ maxIdle
  := by
  induction rounds generalizing p with
  | zero => exact ⟨.refl h, hrounds⟩
  | succ rounds ih =>
      rw [Pool.evict]
      split
      case isTrue hbound => exact ⟨.refl h, hbound⟩
      case isFalse hbound =>
        split
        case h_1 hhead =>
          rw [List.head?_eq_none_iff.mp hhead] at hbound
          exact absurd (Nat.zero_le maxIdle) hbound
        case h_2 oldest hhead =>
          have holdest := h.closeResident oldest
          have hsubset : (p.closeResident oldest).idle ⊆ p.idle.erase oldest := by
            intro x hx
            rw [h.nodup.mem_erase_iff]
            refine ⟨?_, holdest.idle x hx⟩
            rintro rfl
            exact closing_closeResident p x (holdest.sound.idle x hx).2.2
          have hlength := (holdest.sound.nodup.subperm hsubset).length_le
          rw [List.length_erase_of_mem (List.mem_of_mem_head? hhead)] at hlength
          obtain ⟨hrest, hsize⟩ := ih holdest.sound (by omega)
          exact ⟨holdest.trans hrest, hsize⟩

/-- An owner that is given back becomes idle. -/
theorem Sound.park (h : p.Sound) (hlends : p.Lends client)
    (hnone : (p.residents client).closing = none) :
  Pool.Sound
    { p with
      active := p.active.erase client
      idle := if client ∈ p.idle then p.idle else p.idle ++ [client]
      idleByAddress := addByAddress p.idleByAddress client }
  := by
  have hfresh : ¬ Listed p.idleByAddress client := fun hl => hlends.idle ((h.listed client).mpr hl)
  obtain ⟨hlists, hlisted⟩ := h.lists.add hfresh
  rw [if_neg hlends.idle]
  constructor
  case nodup =>
    exact h.nodup.append (List.nodup_singleton client) (by simpa using hlends.idle)
  case lists => exact hlists
  case listed =>
    intro x
    rw [hlisted, List.mem_append, List.mem_singleton, h.listed]
  case idle =>
    intro x hx
    obtain hx | hx := List.mem_append.mp hx
    · obtain ⟨hconnections, hactive, hopen⟩ := h.idle x hx
      exact ⟨hconnections, fun ha => hactive (Finset.mem_of_mem_erase ha), hopen⟩
    · rw [List.mem_singleton.mp hx]
      exact ⟨h.kept client hlends.admitted hnone, Finset.notMem_erase client p.active, hnone⟩
  case active => exact fun x hx => h.active x (Finset.mem_of_mem_erase hx)
  case connections => exact h.connections
  case kept => exact h.kept
  case number => exact h.number
  case calls => exact h.calls

/-- Taking an owner out of the active ones. -/
theorem Sound.eraseActive (h : p.Sound) (client : Owner A) :
  Pool.Sound { p with active := p.active.erase client }
  := by
  constructor
  case nodup => exact h.nodup
  case lists => exact h.lists
  case listed => exact h.listed
  case idle =>
    intro x hx
    obtain ⟨hconnections, hactive, hopen⟩ := h.idle x hx
    exact ⟨hconnections, fun ha => hactive (Finset.mem_of_mem_erase ha), hopen⟩
  case active => exact fun x hx => h.active x (Finset.mem_of_mem_erase hx)
  case connections => exact h.connections
  case kept => exact h.kept
  case number => exact h.number
  case calls => exact h.calls

/-- What holds after an owner has been given back. -/
structure Released (maxIdle : ℕ) (p p' : Pool A) (client : Owner A) : Prop where
  sound : p'.Sound
  size : p'.idle.length ≤ maxIdle
  admitted : p'.admitted = p.admitted
  closed : p'.closed = p.closed
  closing : ∀ x, (p'.residents x).closing = none → (p.residents x).closing = none
  lends : ∀ x, x ≠ client → p.Lends x → p'.Lends x

theorem Sound.release (h : p.Sound) (hsize : p.idle.length ≤ maxIdle) (hlends : p.Lends client)
    (reusable : Bool) :
  Released maxIdle p (p.release maxIdle idleTtlMs client reusable) client
  := by
  have hother : ∀ x, x ≠ client → p.Lends x →
      Lends { p with active := p.active.erase client } x := by
    intro x hne hx
    exact ⟨hx.admitted, hx.idle, fun hopen => Finset.mem_erase.mpr ⟨hne, hx.active hopen⟩⟩
  rw [Pool.release]
  split
  case isTrue hreusable =>
    obtain ⟨-, -, -, hnone⟩ := hreusable
    have hpark := h.park hlends hnone
    dsimp only
    generalize hq : Pool.mk p.admitted p.residents _ _ (p.active.erase client) p.connections
      p.closed p.timers = q at hpark
    have harm : q.Closes (Pool.armIdleTimer idleTtlMs q client) := hpark.armIdleTimer client
    obtain ⟨hevict, hbound⟩ := harm.sound.evict (Pool.armIdleTimer idleTtlMs q client).idle.length
      (Nat.le_add_left _ maxIdle)
    have hcloses := harm.trans hevict
    subst hq
    constructor
    case sound => exact hcloses.sound
    case size => exact hbound
    case admitted => exact hcloses.admitted
    case closed => exact hcloses.closed
    case closing => exact fun x hx => (hcloses.active x hx).1
    case lends =>
      intro x hne hx
      obtain ⟨hadmitted, hidle, hactive⟩ := hother x hne hx
      refine hcloses.lends ⟨hadmitted, ?_, hactive⟩
      dsimp only
      rw [if_neg hlends.idle, List.mem_append, List.mem_singleton]
      rintro (hx' | hx')
      · exact hidle hx'
      · exact hne hx'
  case isFalse =>
    have hcloses := (h.eraseActive client).closeResident client
    constructor
    case sound => exact hcloses.sound
    case size =>
      have hsubset := (hcloses.sound.nodup.subperm hcloses.idle).length_le
      exact Nat.le_trans hsubset hsize
    case admitted => exact hcloses.admitted
    case closed => exact hcloses.closed
    case closing => exact fun x hx => (hcloses.active x hx).1
    case lends => exact fun x hne hx => hcloses.lends (hother x hne hx)

/-! ### Borrowing and admitting -/

/-- What holds after an owner has been lent. -/
structure Lent (p p' : Pool A) (client : Owner A) : Prop where
  sound : p'.Sound
  idle : ∀ x ∈ p'.idle, x ∈ p.idle
  size : p'.idle.length ≤ p.idle.length
  closed : p'.closed = p.closed
  lends : ∀ x, p.Lends x → x ≠ client ∧ p'.Lends x

/-- An idle owner is borrowed. -/
theorem Sound.borrow (h : p.Sound) {address : A} (hborrow : p.borrow address = some (client, p')) :
  Lent p p' client ∧ p'.Lends client ∧ p'.admitted = p.admitted ∧
    ∀ x, (p'.residents x).closing = (p.residents x).closing
  := by
  rw [Pool.borrow] at hborrow
  split at hborrow
  · cases hborrow
  rename_i owners howners
  split at hborrow
  · cases hborrow
  rename_i available hlast
  cases hborrow
  obtain ⟨hnodup, haddress⟩ := h.lists address owners howners
  have hmem : client ∈ owners := List.mem_of_getLast? hlast
  have hlisted : client ∈ p.idle := by
    rw [h.listed, Listed, haddress client hmem]
    exact ⟨owners, howners, hmem⟩
  obtain ⟨hconnections, hactive, hnone⟩ := h.idle client hlisted
  have hlists : Function.update p.idleByAddress address
      (if owners.dropLast = [] then none else some owners.dropLast) =
      removeByAddress p.idleByAddress client := by
    rw [removeByAddress, haddress client hmem, howners, dropLast_eq_erase hnodup hlast]
  obtain ⟨hwell, hremoved⟩ := h.lists.remove client
  rw [← hlists] at hwell hremoved
  have hidle : ∀ x, x ∈ p.idle.erase client ↔ x ∈ p.idle ∧ x ≠ client := by
    intro x
    rw [h.nodup.mem_erase_iff]
    exact And.comm
  have hsound : Pool.Sound
      { p with
        idleByAddress := Function.update p.idleByAddress address
          (if owners.dropLast = [] then none else some owners.dropLast)
        idle := p.idle.erase client
        active := insert client p.active } := by
    constructor
    case nodup => exact h.nodup.erase client
    case lists => exact hwell
    case listed =>
      intro x
      rw [hidle, hremoved, h.listed]
    case idle =>
      intro x hx
      obtain ⟨hbefore, hne⟩ := (hidle x).mp hx
      obtain ⟨hconnected, hinactive, hopen⟩ := h.idle x hbefore
      refine ⟨hconnected, fun ha => ?_, hopen⟩
      obtain hx | hx := Finset.mem_insert.mp ha
      · exact hne hx
      · exact hinactive hx
    case active =>
      intro x hx
      obtain rfl | hx := Finset.mem_insert.mp hx
      · exact ⟨h.connections x hconnections, hnone⟩
      · exact h.active x hx
    case connections => exact h.connections
    case kept => exact h.kept
    case number => exact h.number
    case calls => exact h.calls
  have hcleared := hsound.setTimer client none
  have hclosing := closing_setTimer p client none
  refine ⟨⟨hcleared, fun x hx => ((hidle x).mp hx).1, List.length_erase_le, rfl, fun x hx => ?_⟩,
    ?_, rfl, hclosing⟩
  · refine ⟨?_, hx.admitted, fun hi => hx.idle ((hidle x).mp hi).1, fun hopen => ?_⟩
    · rintro rfl
      exact hx.idle hlisted
    · exact Finset.mem_insert_of_mem (hx.active ((hclosing x).symm.trans hopen))
  · refine ⟨h.connections client hconnections, fun hi => ((hidle client).mp hi).2 rfl, fun _ => ?_⟩
    exact Finset.mem_insert_self client p.active

omit [DecidableEq A] in
/-- A dialed owner is new. -/
theorem Sound.fresh (h : p.Sound) (address : A) :
  (⟨p.admitted.length, address⟩ : Owner A) ∉ p.admitted
  := by
  exact fun hmem => lt_irrefl _ (h.number _ hmem)

/-- The pool with a dialed owner, before it is known whether the client is closed. -/
theorem Sound.dialed (h : p.Sound) {client : Owner A} (hclient : client ∉ p.admitted)
    (hnumber : client.number = p.admitted.length) :
  Pool.Sound
    { p with
      admitted := p.admitted ++ [client]
      residents := Function.update p.residents client newResident
      connections := p.connections ++ [client] }
  := by
  have hother : ∀ x ∈ p.admitted,
      Function.update p.residents client newResident x = p.residents x := by
    intro x hx
    rw [Function.update_of_ne]
    rintro rfl
    exact hclient hx
  constructor
  case nodup => exact h.nodup
  case lists => exact h.lists
  case listed => exact h.listed
  case idle =>
    intro x hx
    obtain ⟨hconnections, hactive, hopen⟩ := h.idle x hx
    dsimp only
    rw [hother x (h.connections x hconnections)]
    exact ⟨List.mem_append_left _ hconnections, hactive, hopen⟩
  case active =>
    intro x hx
    obtain ⟨hadmitted, hopen⟩ := h.active x hx
    dsimp only
    rw [hother x hadmitted]
    exact ⟨List.mem_append_left _ hadmitted, hopen⟩
  case connections =>
    intro x hx
    obtain hx | hx := List.mem_append.mp hx
    · exact List.mem_append_left _ (h.connections x hx)
    · exact List.mem_append_right _ hx
  case kept =>
    intro x hx hopen
    dsimp only at hopen
    obtain hx | hx := List.mem_append.mp hx
    · rw [hother x hx] at hopen
      exact List.mem_append_left _ (h.kept x hx hopen)
    · exact List.mem_append_right _ hx
  case number =>
    intro x hx
    rw [List.length_append, List.length_singleton]
    obtain hx | hx := List.mem_append.mp hx
    · exact Nat.lt_succ_of_lt (h.number x hx)
    · rw [List.mem_singleton.mp hx, hnumber]
      exact Nat.lt_succ_self _
  case calls =>
    intro x
    dsimp only
    by_cases hx : x = client
    · rw [hx, Function.update_self]
      rfl
    · rw [Function.update_of_ne hx]
      exact h.calls x

theorem Lends.dialed (hx : p.Lends x) {client : Owner A} (hclient : client ∉ p.admitted) :
  Lends
    { p with
      admitted := p.admitted ++ [client]
      residents := Function.update p.residents client newResident
      connections := p.connections ++ [client] } x
  := by
  have hne : x ≠ client := by
    rintro rfl
    exact hclient hx.admitted
  constructor
  case admitted => exact List.mem_append_left _ hx.admitted
  case idle => exact hx.idle
  case active =>
    intro hopen
    dsimp only at hopen
    rw [Function.update_of_ne hne] at hopen
    exact hx.active hopen

/-- An open client lends a dialed owner. -/
theorem Sound.admitOwner (h : p.Sound) (address : A) (hopen : p.closed = false) :
  Lent p (p.admitOwner address).2 (p.admitOwner address).1 ∧
    (p.admitOwner address).2.Lends (p.admitOwner address).1
  := by
  have hfresh := h.fresh address
  have hdialed := h.dialed hfresh rfl
  rw [Pool.admitOwner]
  dsimp only
  rw [if_neg (by rw [hopen]; exact Bool.false_ne_true)]
  have hnew : (⟨p.admitted.length, address⟩ : Owner A) ∉ p.idle :=
    fun hidle => hfresh (h.connections _ (h.idle _ hidle).1)
  refine ⟨⟨?_, fun x hx => hx, Nat.le_refl _, rfl, fun x hx => ⟨?_, ?_⟩⟩, ?_⟩
  · constructor
    case nodup => exact hdialed.nodup
    case lists => exact hdialed.lists
    case listed => exact hdialed.listed
    case idle =>
      intro x hx
      obtain ⟨hconnections, hactive, hnone⟩ := hdialed.idle x hx
      refine ⟨hconnections, fun ha => ?_, hnone⟩
      obtain rfl | ha := Finset.mem_insert.mp ha
      · exact hnew hx
      · exact hactive ha
    case active =>
      intro x hx
      obtain rfl | hx := Finset.mem_insert.mp hx
      · dsimp only
        rw [Function.update_self]
        exact ⟨List.mem_append_right _ List.mem_cons_self, rfl⟩
      · exact hdialed.active x hx
    case connections => exact hdialed.connections
    case kept => exact hdialed.kept
    case number => exact hdialed.number
    case calls => exact hdialed.calls
  · rintro rfl
    exact hfresh hx.admitted
  · obtain ⟨hadmitted, hidle, hactive⟩ := hx.dialed hfresh
    exact ⟨hadmitted, hidle, fun hnone => Finset.mem_insert_of_mem (hactive hnone)⟩
  · exact ⟨List.mem_append_right _ List.mem_cons_self, hnew,
      fun _ => Finset.mem_insert_self _ _⟩

/-- A closed client closes a dialed owner. -/
theorem Sound.refuseOwner (h : p.Sound) (address : A) (hclosed : p.closed = true) :
  (p.admitOwner address).2.Sound ∧ (∀ x ∈ (p.admitOwner address).2.idle, x ∈ p.idle) ∧
    (p.admitOwner address).2.closed = true ∧
    (∀ x, p.Lends x → (p.admitOwner address).2.Lends x) ∧
    ((∀ x ∈ p.admitted, (p.residents x).closing ≠ none) → ∀ x ∈ (p.admitOwner address).2.admitted,
      ((p.admitOwner address).2.residents x).closing ≠ none)
  := by
  have hfresh := h.fresh address
  have hcloses := (h.dialed hfresh rfl).closeResident ⟨p.admitted.length, address⟩
  have hlast := closing_closeResident
    { p with
      admitted := p.admitted ++ [⟨p.admitted.length, address⟩]
      residents := Function.update p.residents ⟨p.admitted.length, address⟩ newResident
      connections := p.connections ++ [⟨p.admitted.length, address⟩] }
    ⟨p.admitted.length, address⟩
  rw [Pool.admitOwner]
  dsimp only
  rw [if_pos hclosed]
  refine ⟨hcloses.sound, hcloses.idle, hcloses.closed.trans hclosed,
    fun x hx => hcloses.lends (hx.dialed hfresh), fun hall x hx hnone => ?_⟩
  rw [hcloses.admitted] at hx
  obtain hx | hx := List.mem_append.mp hx
  · have hne : x ≠ ⟨p.admitted.length, address⟩ := by
      rintro rfl
      exact hfresh hx
    have hbefore := (hcloses.active x hnone).1
    dsimp only at hbefore
    rw [Function.update_of_ne hne] at hbefore
    exact hall x hx hbefore
  · rw [List.mem_singleton.mp hx] at hnone
    exact hlast hnone

/-! ### Closing -/

/-- A close that has been scheduled goes on. -/
theorem Sound.proceed (h : p.Sound) {client : Owner A} {resident : Resident}
    {connections : List (Owner A)} (hbefore : (p.residents client).closing ≠ none)
    (hafter : resident.closing ≠ none) (hcalls : resident.closeCalls = closeCount resident.closing)
    (hforget : ∀ x ∈ connections, x ∈ p.connections)
    (hkeep : ∀ x ∈ p.connections, x ≠ client → x ∈ connections) :
  Pool.Sound { p.setResident client resident with connections := connections }
  := by
  have hother : ∀ x, (p.residents x).closing = none →
      (p.setResident client resident).residents x = p.residents x := by
    intro x hx
    rw [residents_setResident, if_neg]
    rintro rfl
    exact hbefore hx
  have hnone : ∀ x, ((p.setResident client resident).residents x).closing = none →
      x ≠ client ∧ (p.residents x).closing = none := by
    intro x hx
    rw [residents_setResident] at hx
    split at hx
    · exact absurd hx hafter
    · rename_i hne
      exact ⟨hne, hx⟩
  constructor
  case nodup => exact h.nodup
  case lists => exact h.lists
  case listed => exact h.listed
  case idle =>
    intro x hx
    obtain ⟨hconnections, hactive, hopen⟩ := h.idle x hx
    refine ⟨hkeep x hconnections ?_, hactive, ?_⟩
    · rintro rfl
      exact hbefore hopen
    · dsimp only
      rw [hother x hopen]
      exact hopen
  case active =>
    intro x hx
    obtain ⟨hadmitted, hopen⟩ := h.active x hx
    dsimp only
    rw [hother x hopen]
    exact ⟨hadmitted, hopen⟩
  case connections => exact fun x hx => h.connections x (hforget x hx)
  case kept =>
    intro x hx hopen
    obtain ⟨hne, hopen⟩ := hnone x hopen
    exact hkeep x (h.kept x hx hopen) hne
  case number => exact h.number
  case calls =>
    intro x
    dsimp only
    rw [residents_setResident]
    split
    · exact hcalls
    · exact h.calls x

/-- The owners that are lent while a close goes on. -/
theorem Lends.proceed (hx : p.Lends x) {client : Owner A} {resident : Resident}
    {connections : List (Owner A)} (hafter : resident.closing ≠ none) :
  Pool.Lends { p.setResident client resident with connections := connections } x
  := by
  constructor
  case admitted => exact hx.admitted
  case idle => exact hx.idle
  case active =>
    intro hopen
    dsimp only at hopen
    rw [residents_setResident] at hopen
    split at hopen
    · exact absurd hopen hafter
    · exact hx.active hopen

/-- Closing the client closes every owner. -/
theorem Sound.beginTransportClose (h : p.Sound)
    (hclosed : p.closed = true → ∀ x ∈ p.admitted, (p.residents x).closing ≠ none) :
  p.beginTransportClose.Sound ∧ (∀ x ∈ p.beginTransportClose.idle, x ∈ p.idle) ∧
    (∀ x, p.Lends x → p.beginTransportClose.Lends x) ∧ p.beginTransportClose.closed = true ∧
    ∀ x ∈ p.beginTransportClose.admitted, (p.beginTransportClose.residents x).closing ≠ none
  := by
  rw [Pool.beginTransportClose]
  split
  case isTrue hc => exact ⟨h, fun _ hx => hx, fun _ hx => hx, hc, hclosed hc⟩
  case isFalse hc =>
    have hsound : Pool.Sound { p with closed := true } := ⟨h.nodup, h.lists, h.listed, h.idle,
      h.active, h.connections, h.kept, h.number, h.calls⟩
    obtain ⟨hcloses, hclosing⟩ := hsound.closeAll p.connections
    refine ⟨hcloses.sound, hcloses.idle,
      fun x hx => hcloses.lends ⟨hx.admitted, hx.idle, hx.active⟩, hcloses.closed, ?_⟩
    intro x hx hnone
    rw [hcloses.admitted] at hx
    exact hclosing x (h.kept x hx (hcloses.active x hnone).1) hnone

end Pool

/-! ### The client -/

/-- What holds of a client. -/
structure PooledClient.Sound (maxIdle : ℕ) (c : PooledClient A) : Prop where
  pool : c.pool.Sound
  size : c.pool.idle.length ≤ maxIdle
  lends : ∀ i a x, c.attempts i = some a → a.stage.lent = some x → c.pool.Lends x
  unique : ∀ i j a b x, c.attempts i = some a → c.attempts j = some b →
    a.stage.lent = some x → b.stage.lent = some x → i = j
  closed : c.pool.closed = true →
    ∀ x ∈ c.pool.admitted, (c.pool.residents x).closing ≠ none

namespace PooledClient

variable {c c' : PooledClient A} {i : ℕ} {a a' : Attempt A} {client : Owner A}

omit [DecidableEq A] in
theorem sound_newPooledClient :
  (newPooledClient : PooledClient A).Sound maxIdle
  := by
  constructor
  case pool => exact Pool.sound_newPool
  case size => exact Nat.zero_le maxIdle
  case lends => rintro _ _ _ ⟨⟩
  case unique => rintro _ _ _ _ _ ⟨⟩
  case closed => rintro ⟨⟩

omit [DecidableEq A] in
/-- One attempt changes, and the pool. -/
theorem Sound.turn (h : c.Sound maxIdle) {pool : Pool A} (hpool : pool.Sound)
    (hsize : pool.idle.length ≤ maxIdle)
    (hclosed : pool.closed = true → ∀ x ∈ pool.admitted, (pool.residents x).closing ≠ none)
    (hothers : ∀ j b x, j ≠ i → c.attempts j = some b → b.stage.lent = some x → pool.Lends x)
    (hlent : ∀ x, a.stage.lent = some x → pool.Lends x ∧
      ∀ j b, j ≠ i → c.attempts j = some b → b.stage.lent ≠ some x) :
  Sound maxIdle ({ c with pool := pool }.setAttempt i a)
  := by
  have hattempts : ∀ j b, ({ c with pool := pool }.setAttempt i a).attempts j = some b →
      (j = i ∧ b = a) ∨ (j ≠ i ∧ c.attempts j = some b) := by
    intro j b hb
    rw [setAttempt] at hb
    dsimp only at hb
    by_cases hj : j = i
    · rw [hj, Function.update_self] at hb
      exact .inl ⟨hj, (Option.some.inj hb).symm⟩
    · rw [Function.update_of_ne hj] at hb
      exact .inr ⟨hj, hb⟩
  constructor
  case pool => exact hpool
  case size => exact hsize
  case lends =>
    intro j b x hb hx
    obtain ⟨-, rfl⟩ | ⟨hj, hb⟩ := hattempts j b hb
    · exact (hlent x hx).1
    · exact hothers j b x hj hb hx
  case unique =>
    intro j k b b' x hb hb' hx hx'
    obtain ⟨rfl, rfl⟩ | ⟨hj, hbefore⟩ := hattempts j b hb
    · obtain ⟨rfl, -⟩ | ⟨hk, hbefore'⟩ := hattempts k b' hb'
      · rfl
      · exact absurd hx' ((hlent x hx).2 k b' hk hbefore')
    · obtain ⟨rfl, rfl⟩ | ⟨hk, hbefore'⟩ := hattempts k b' hb'
      · exact absurd hx ((hlent x hx').2 j b hj hbefore)
      · exact h.unique j k b b' x hbefore hbefore' hx hx'
  case closed => exact hclosed

omit [DecidableEq A] in
/-- An attempt goes on without a new owner. -/
theorem Sound.setAttempt (h : c.Sound maxIdle)
    (hlent : ∀ x, a'.stage.lent = some x →
      ∃ a, c.attempts i = some a ∧ a.stage.lent = some x) :
  Sound maxIdle (c.setAttempt i a')
  := by
  refine h.turn h.pool h.size h.closed (fun j b x _ hb hx => h.lends j b x hb hx) (fun x hx => ?_)
  obtain ⟨a, ha, hx⟩ := hlent x hx
  exact ⟨h.lends i a x ha hx, fun j b hj hb hx' => hj (h.unique j i b a x hb ha hx' hx)⟩

theorem Sound.release (h : c.Sound maxIdle) (hattempt : c.attempts i = some a)
    (hlent : a.stage.lent = some client) (reusable : Bool) :
  Sound maxIdle (c.release maxIdle idleTtlMs i a client reusable)
  := by
  have hreleased : Pool.Released maxIdle c.pool
      (c.pool.release maxIdle idleTtlMs client reusable) client :=
    h.pool.release h.size (h.lends i a client hattempt hlent) reusable
  obtain ⟨hsound, hsize, hadmitted, hclosed, hclosing, hlends⟩ := hreleased
  refine h.turn hsound hsize (fun hc x hx hnone => ?_) (fun j b x hj hb hx => ?_) ?_
  · rw [hclosed] at hc
    rw [hadmitted] at hx
    exact h.closed hc x hx (hclosing x hnone)
  · refine hlends x ?_ (h.lends j b x hb hx)
    rintro rfl
    exact hj (h.unique j i b a x hb hattempt hx hlent)
  · rintro x ⟨⟩

theorem Sound.respond (h : c.Sound maxIdle) (hattempt : c.attempts i = some a)
    (hstage : a.stage = .fetching client) (reply : Reply) :
  Sound maxIdle (c.respond maxIdle idleTtlMs i a client reply)
  := by
  have hlent : a.stage.lent = some client := by
    rw [hstage]
    rfl
  rw [PooledClient.respond]
  split
  · exact h.setAttempt (fun x hx => ⟨a, hattempt, hlent.trans hx⟩)
  · exact h.release hattempt hlent false
  · exact h.setAttempt (fun x hx => ⟨a, hattempt, hlent.trans hx⟩)
  · exact h.setAttempt (fun x hx => ⟨a, hattempt, hlent.trans hx⟩)
  · exact h.release hattempt hlent true

omit [DecidableEq A] in
/-- An owner that no attempt has is lent. -/
theorem Sound.lend (h : c.Sound maxIdle) {pool : Pool A} (hpool : Pool.Lent c.pool pool client)
    (hopen : c.pool.closed = false) (hlends : pool.Lends client) (hlent : a.stage.lent = some client) :
  Sound maxIdle ({ c with pool := pool }.setAttempt i a)
  := by
  refine h.turn hpool.sound (Nat.le_trans hpool.size h.size) (fun hc => ?_)
    (fun j b x _ hb hx => (hpool.lends x (h.lends j b x hb hx)).2) (fun x hx => ?_)
  · rw [hpool.closed, hopen] at hc
    cases hc
  · obtain rfl : client = x := Option.some.inj (hlent.symm.trans hx)
    exact ⟨hlends, fun j b _ hb hx' => (hpool.lends client (h.lends j b client hb hx')).1 rfl⟩

theorem Sound.acquire (h : c.Sound maxIdle) (i : ℕ) (a : Attempt A) (address : A) :
  Sound maxIdle (c.acquire i a address)
  := by
  rw [PooledClient.acquire]
  split
  case isTrue hclosed => exact h.setAttempt (by rintro x ⟨⟩)
  case isFalse hopen =>
    split
    case h_1 client pool hborrow =>
      obtain ⟨hlent, hlends, -, -⟩ := h.pool.borrow hborrow
      exact h.lend hlent (Bool.eq_false_iff.mpr hopen) hlends rfl
    case h_2 => exact h.setAttempt (by rintro x ⟨⟩)

theorem Sound.admitDialed (h : c.Sound maxIdle) (i : ℕ) (a : Attempt A) (address : A) :
  Sound maxIdle (c.admitDialed i a address)
  := by
  rw [PooledClient.admitDialed]
  cases hclosed : c.pool.closed with
  | false =>
      obtain ⟨hlent, hlends⟩ := h.pool.admitOwner address hclosed
      exact h.lend hlent hclosed hlends rfl
  | true =>
      obtain ⟨hsound, hidle, -, hlends, hclosing⟩ := h.pool.refuseOwner address hclosed
      refine h.turn hsound ?_ (fun _ => hclosing (h.closed hclosed))
        (fun j b x _ hb hx => hlends x (h.lends j b x hb hx)) (by rintro x ⟨⟩)
      exact Nat.le_trans (hsound.nodup.subperm hidle).length_le h.size

omit [DecidableEq A] in
/-- Only the pool changes. -/
theorem Sound.setPool (h : c.Sound maxIdle) {pool : Pool A} (hpool : pool.Sound)
    (hidle : ∀ x ∈ pool.idle, x ∈ c.pool.idle)
    (hclosed : pool.closed = true → ∀ x ∈ pool.admitted, (pool.residents x).closing ≠ none)
    (hlends : ∀ x, c.pool.Lends x → pool.Lends x) :
  Sound maxIdle { c with pool := pool }
  := by
  constructor
  case pool => exact hpool
  case size => exact Nat.le_trans (hpool.nodup.subperm hidle).length_le h.size
  case lends => exact fun i a x ha hx => hlends x (h.lends i a x ha hx)
  case unique => exact h.unique
  case closed => exact hclosed

omit [DecidableEq A] in
theorem Sound.closes (h : c.Sound maxIdle) {pool : Pool A} (hcloses : c.pool.Closes pool) :
  Sound maxIdle { c with pool := pool }
  := by
  refine h.setPool hcloses.sound hcloses.idle (fun hc x hx hnone => ?_) (fun x hx => hcloses.lends hx)
  rw [hcloses.closed] at hc
  rw [hcloses.admitted] at hx
  exact h.closed hc x hx (hcloses.active x hnone).1

/-- The close of an owner goes on. -/
theorem Sound.proceed (h : c.Sound maxIdle) {resident : Resident} {connections : List (Owner A)}
    (hbefore : (c.pool.residents client).closing ≠ none) (hafter : resident.closing ≠ none)
    (hcalls : resident.closeCalls = closeCount resident.closing)
    (hforget : ∀ x ∈ connections, x ∈ c.pool.connections)
    (hkeep : ∀ x ∈ c.pool.connections, x ≠ client → x ∈ connections) :
  Sound maxIdle
    { c with pool := { c.pool.setResident client resident with connections := connections } }
  := by
  refine h.setPool (h.pool.proceed hbefore hafter hcalls hforget hkeep) (fun _ hx => hx)
    (fun hc x hx hnone => ?_) (fun x hx => hx.proceed hafter)
  dsimp only at hnone
  rw [Pool.residents_setResident] at hnone
  split at hnone
  · exact hafter hnone
  · exact h.closed hc x hx hnone

/-- A step keeps what holds of a client. -/
theorem Sound.step (h : c.Sound maxIdle) (hstep : PoolStep maxIdle idleTtlMs c c') :
  c'.Sound maxIdle
  := by
  cases hstep with
  | begins | fails | dialRejects => exact h.setAttempt (by rintro x ⟨⟩)
  | acquires hattempt hstage address => exact h.acquire _ _ address
  | dialResolves hattempt hstage => exact h.admitDialed _ _ _
  | fetchRejects hattempt hstage =>
      exact h.release hattempt (by rw [hstage]; rfl) false
  | responds hattempt hstage reply => exact h.respond hattempt hstage reply
  | decoded hattempt hstage => exact h.release hattempt (by rw [hstage]; rfl) false
  | validated hattempt hstage valid => exact h.release hattempt (by rw [hstage]; rfl) valid
  | bodyEnds hattempt hstage => exact h.release hattempt (by rw [hstage]; rfl) true
  | timerFires client timer =>
      apply h.closes
      rw [Pool.expireIdleOwner]
      split
      · exact .refl h.pool
      · have htimer := h.pool.closes_setTimer client none
        exact htimer.trans (htimer.sound.closeResident client)
  | @closeCalled client hclosing =>
      have hcalls := h.pool.calls client
      rw [hclosing] at hcalls
      refine h.proceed (by rw [hclosing]; exact Option.some_ne_none _) (Option.some_ne_none _) ?_
        (fun _ hx => hx) (fun _ hx _ => hx)
      dsimp only
      rw [hcalls]
      rfl
  | @closeSettles client hclosing =>
      have hcalls := h.pool.calls client
      rw [hclosing] at hcalls
      refine h.proceed (by rw [hclosing]; exact Option.some_ne_none _) (Option.some_ne_none _) hcalls
        (fun _ hx => List.mem_of_mem_erase hx) (fun _ hx hne => (List.mem_erase_of_ne hne).mpr hx)
  | closes =>
      obtain ⟨hsound, hidle, hlends, -, hclosing⟩ := h.pool.beginTransportClose h.closed
      exact h.setPool hsound hidle (fun _ => hclosing) hlends

theorem Sound.run (hrun : Relation.ReflTransGen (PoolStep maxIdle idleTtlMs) newPooledClient c) :
  c.Sound maxIdle
  := by
  induction hrun with
  | refl => exact sound_newPooledClient
  | tail _ hstep ih => exact ih.step hstep

/-! ### A closed client -/

/-- A closed client stays closed, and lends nothing that it has not lent. -/
theorem Sound.step_closed (h : c.Sound maxIdle) (hclosed : c.pool.closed = true)
    (hstep : PoolStep maxIdle idleTtlMs c c') :
  c'.pool.closed = true ∧ ∀ i a x, c'.attempts i = some a → a.stage.lent = some x →
    ∃ b, c.attempts i = some b ∧ b.stage.lent = some x
  := by
  have hset : ∀ {d : PooledClient A} (i : ℕ) (a : Attempt A), d.attempts = c.attempts →
      (∀ x, a.stage.lent = some x → ∃ b, c.attempts i = some b ∧ b.stage.lent = some x) →
      ∀ j b x, (d.setAttempt i a).attempts j = some b → b.stage.lent = some x →
        ∃ b, c.attempts j = some b ∧ b.stage.lent = some x := by
    intro d i a hd hlent j b x hb hx
    rw [PooledClient.setAttempt] at hb
    dsimp only at hb
    by_cases hj : j = i
    · rw [hj, Function.update_self] at hb
      obtain rfl : a = b := Option.some.inj hb
      rw [hj]
      exact hlent x hx
    · rw [Function.update_of_ne hj, hd] at hb
      exact ⟨b, hb, hx⟩
  have hrelease : ∀ {i : ℕ} {a : Attempt A} {client : Owner A} (reusable : Bool),
      c.attempts i = some a → a.stage.lent = some client →
      (c.release maxIdle idleTtlMs i a client reusable).pool.closed = true ∧
      ∀ j b x, (c.release maxIdle idleTtlMs i a client reusable).attempts j = some b →
        b.stage.lent = some x → ∃ b, c.attempts j = some b ∧ b.stage.lent = some x := by
    intro i a client reusable hattempt hlent
    have hreleased : Pool.Released maxIdle c.pool
        (c.pool.release maxIdle idleTtlMs client reusable) client :=
      h.pool.release h.size (h.lends i a client hattempt hlent) reusable
    exact ⟨hreleased.closed.trans hclosed, hset i _ rfl (by rintro x ⟨⟩)⟩
  have hsame : ∀ {d : PooledClient A}, d.attempts = c.attempts → ∀ i a x,
      d.attempts i = some a → a.stage.lent = some x →
      ∃ b, c.attempts i = some b ∧ b.stage.lent = some x := by
    intro d hd i a x ha hx
    rw [hd] at ha
    exact ⟨a, ha, hx⟩
  cases hstep with
  | @begins i hnew streaming typed | @fails i a hattempt hstage
  | @dialRejects i a address hattempt hstage => exact ⟨hclosed, hset i _ rfl (by rintro x ⟨⟩)⟩
  | @acquires i a hattempt hstage address =>
      rw [PooledClient.acquire, if_pos hclosed]
      exact ⟨hclosed, hset i _ rfl (by rintro x ⟨⟩)⟩
  | @dialResolves i a address hattempt hstage =>
      rw [PooledClient.admitDialed, if_pos hclosed]
      exact ⟨(h.pool.refuseOwner address hclosed).2.2.1, hset i _ rfl (by rintro x ⟨⟩)⟩
  | @fetchRejects i a client hattempt hstage | @decoded i a client hattempt hstage =>
      exact hrelease false hattempt (by rw [hstage]; rfl)
  | @responds i a client hattempt hstage reply =>
      have hlent : a.stage.lent = some client := by
        rw [hstage]
        rfl
      rw [PooledClient.respond]
      split
      · exact ⟨hclosed, hset i _ rfl (fun x hx => ⟨a, hattempt, hlent.trans hx⟩)⟩
      · exact hrelease false hattempt hlent
      · exact ⟨hclosed, hset i _ rfl (fun x hx => ⟨a, hattempt, hlent.trans hx⟩)⟩
      · exact ⟨hclosed, hset i _ rfl (fun x hx => ⟨a, hattempt, hlent.trans hx⟩)⟩
      · exact hrelease true hattempt hlent
  | @validated i a client hattempt hstage valid =>
      exact hrelease valid hattempt (by rw [hstage]; rfl)
  | @bodyEnds i a client hattempt hstage =>
      exact hrelease true hattempt (by rw [hstage]; rfl)
  | timerFires client timer =>
      refine ⟨?_, hsame rfl⟩
      dsimp only
      rw [Pool.expireIdleOwner]
      split
      · exact hclosed
      · have htimer := h.pool.closes_setTimer client none
        exact (htimer.trans (htimer.sound.closeResident client)).closed.trans hclosed
  | closeCalled | closeSettles => exact ⟨hclosed, hsame rfl⟩
  | closes => exact ⟨(h.pool.beginTransportClose h.closed).2.2.2.1, hsame rfl⟩

end PooledClient

/-- In every run: an owner is lent to one attempt at most; the idle set and the lists of the
addresses have the same owners, each once, and these are connections that are neither active nor
being closed; the idle set is bounded; the close of an owner is called once at most; and once the
client has been closed every owner is closed, and none is lent again. -/
theorem pool_owned {c : PooledClient A}
    (hrun : Relation.ReflTransGen (PoolStep maxIdle idleTtlMs) newPooledClient c) :
  (∀ i j a b x, c.attempts i = some a → c.attempts j = some b →
    a.stage.lent = some x → b.stage.lent = some x → i = j) ∧
  (c.pool.idle.Nodup ∧ WellListed c.pool.idleByAddress ∧
    ∀ x, x ∈ c.pool.idle ↔ Listed c.pool.idleByAddress x) ∧
  (∀ x ∈ c.pool.idle, x ∈ c.pool.connections ∧ x ∉ c.pool.active ∧
    (c.pool.residents x).closing = none) ∧
  c.pool.idle.length ≤ maxIdle ∧
  (∀ x, (c.pool.residents x).closeCalls ≤ 1) ∧
  (c.pool.closed = true →
    (∀ x ∈ c.pool.admitted, (c.pool.residents x).closing ≠ none ∧
      ((c.pool.residents x).closing ≠ some .scheduled → (c.pool.residents x).closeCalls = 1)) ∧
    ∀ c', PoolStep maxIdle idleTtlMs c c' → c'.pool.closed = true ∧
      ∀ i a x, c'.attempts i = some a → a.stage.lent = some x →
        ∃ b, c.attempts i = some b ∧ b.stage.lent = some x)
  := by
  have h := PooledClient.Sound.run hrun
  refine ⟨h.unique, ⟨h.pool.nodup, h.pool.lists, h.pool.listed⟩, h.pool.idle, h.size, fun x => ?_,
    fun hclosed => ⟨fun x hx => ⟨h.closed hclosed x hx, fun hcalled => ?_⟩,
      fun c' hstep => h.step_closed hclosed hstep⟩⟩
  · rw [h.pool.calls]
    cases (c.pool.residents x).closing with
    | none => exact Nat.zero_le 1
    | some closing =>
        cases closing with
        | scheduled => exact Nat.zero_le 1
        | called | settled => exact Nat.le_refl 1
  · have hclosing := h.closed hclosed x hx
    rw [h.pool.calls]
    cases hx : (c.pool.residents x).closing with
    | none => exact absurd hx hclosing
    | some closing =>
        cases closing with
        | scheduled => exact absurd hx hcalled
        | called | settled => rfl

/-- An owner whose dial resolves after the client has been closed. -/
theorem pool_owned_lateDial :
  ∃ c : PooledClient ℕ, c.pool.admitted = [⟨0, 7⟩] ∧ c.pool.closed = true ∧
    (c.pool.residents ⟨0, 7⟩).closing ≠ none
  := by
  let begun : PooledClient ℕ := newPooledClient.setAttempt 0 ⟨false, false, .begun⟩
  let dialing := begun.acquire 0 ⟨false, false, .begun⟩ 7
  let closed : PooledClient ℕ := { dialing with pool := dialing.pool.beginTransportClose }
  let late := closed.admitDialed 0 ⟨false, false, .dialing 7⟩ 7
  have hrun : Relation.ReflTransGen (PoolStep 1 0) newPooledClient late :=
    .tail (.tail (.tail (.tail .refl (.begins rfl false false)) (.acquires rfl rfl 7)) .closes)
      (.dialResolves rfl rfl)
  obtain ⟨-, -, -, -, -, hclosed⟩ := pool_owned hrun
  exact ⟨late, rfl, rfl, ((hclosed rfl).1 ⟨0, 7⟩ List.mem_cons_self).1⟩

end Client
