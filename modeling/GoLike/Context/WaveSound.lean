import GoLike.Context.Growth
import Mathlib.Data.List.Basic

/-!
# What is on the stack

A wave that was run for a root ends contexts below the root, each after the one it is linked
to, and runs the cleanups of none of them before its queue is empty. So what is still to be run
of it belongs to contexts whose ancestors below the root have all ended, and a context on which
the wave works is above none of them. The frames of the stack are sound, each with what is
below it, and stay so while the frames above them work.
-/

namespace ContextTree

namespace Machine

variable {κ ν ε : Type}

/-! ### Contexts below the root of a wave -/

/-- The context has ended. -/
def Ended (s : Machine κ ν ε) (n : ℕ) : Prop :=
  ∃ failure, s.observed n = some failure

/-- The context is the root, or below it. -/
def Joined (s : Machine κ ν ε) (root n : ℕ) : Prop :=
  n = root ∨ s.Below root n

/-- The context is below the root, and all from it up to the root have ended. -/
structure Under (s : Machine κ ν ε) (root n : ℕ) : Prop where
  joined : s.Joined root n
  ended : ∀ {a : ℕ}, a ∈ n :: s.ancestors n → s.Joined root a → s.Ended a

/-- No cleanup has been run in a wave. -/
def NoRuns (s : Machine κ ν ε) (id : ℕ) : Prop :=
  ∀ e ∈ s.ran, e.wave ≠ id

/-- A context that has ended exists. -/
theorem Ended.exists_cell {s : Machine κ ν ε} {n : ℕ} (h : s.Ended n) :
  ∃ cell, s.cells n = some cell
  := by
  obtain ⟨failure, h⟩ := h
  obtain ⟨cell, hcell, -⟩ := Option.bind_eq_some_iff.1 h
  exact ⟨cell, hcell⟩

/-- The context itself has ended. -/
theorem Under.self {s : Machine κ ν ε} {root n : ℕ} (h : s.Under root n) :
  s.Ended n
  := h.ended List.mem_cons_self h.joined

/-- The root is under itself once it has ended. -/
theorem Under.root {s : Machine κ ν ε} (hs : Grounded s) {root : ℕ} (h : s.Ended root) :
  s.Under root root
  := by
  constructor
  case joined => exact .inl rfl
  case ended =>
    intro a ha hjoined
    obtain rfl | ha := List.mem_cons.1 ha
    · exact h
    · have hbelow := hs.below ha
      obtain rfl | hjoined := hjoined
      · exact (Nat.lt_irrefl _ hbelow).elim
      · exact (Nat.lt_irrefl _ (Nat.lt_trans hbelow (hs.lt_of_below hjoined))).elim

/-- A context is under the root when it has ended and the one it is linked to is under it. -/
theorem Under.child {s : Machine κ ν ε} (hs : Grounded s) {root n p : ℕ}
    (hlink : s.link n = some (.node p)) (hp : s.Under root p) (h : s.Ended n) :
  s.Under root n
  := by
  have hancestors := hs.ancestors_eq hlink
  constructor
  case joined =>
    right
    obtain rfl | hjoined := hp.joined
    · exact .single hlink
    · exact .head hlink hjoined
  case ended =>
    intro a ha hjoined
    obtain rfl | ha := List.mem_cons.1 ha
    · exact h
    · rw [hancestors] at ha
      exact hp.ended ha hjoined

/-- A context below the root that has not ended is above none that is under the root. -/
theorem Under.not_mem {s : Machine κ ν ε} {root n m : ℕ} (hm : s.Under root m)
    (hn : s.Joined root n) (hlive : ¬ s.Ended n) :
  n ∉ s.ancestors m
  := fun h => hlive (hm.ended (List.mem_cons_of_mem m h) hn)

/-! ### Sound frames -/

/-- The numbers of the waves of a stack. -/
def waves (stack : List (Frame ε)) : List ℕ :=
  stack.filterMap waveNumber
where
  waveNumber : Frame ε → Option ℕ
  | .code _ => none
  | .dispatch _ _ _ => none
  | .wave id _ _ _ => some id

/-- A task of a wave ends its root, or a context whose link has ended. -/
def TaskSound (s : Machine κ ν ε) (root : ℕ) : Task ε → Prop
  | .own node _ _ => node = root
  | .fromParent node =>
      (node = root ∧ ∃ id, s.link node = some (.foreign id)) ∨
        ∃ p, s.link node = some (.node p) ∧ s.Under root p

/-- What holds of a wave. -/
structure WaveSound (s : Machine κ ν ε) (id root : ℕ) (tasks : List (Task ε))
    (cleanupFrames : List (ℕ × List Cleanup)) (rest : List (Frame ε)) : Prop where
  recent : id < s.nextWave
  last : ∀ w ∈ waves rest, w < id
  idle : tasks ≠ [] → s.NoRuns id
  sound : ∀ task ∈ tasks, s.TaskSound root task
  /-- The wave for a child of a foreign context has nothing else to do. -/
  alone : ∀ {n foreign : ℕ}, .fromParent n ∈ tasks → s.link n = some (.foreign foreign) →
    tasks = [.fromParent n] ∧ cleanupFrames = []
  under : ∀ f ∈ cleanupFrames, s.Under root f.1
  above : cleanupFrames.Pairwise (fun f g => f.1 ∉ s.ancestors g.1)
  ran : ∀ e ∈ s.ran, e.wave = id → ∀ f ∈ cleanupFrames, e.node ∉ s.ancestors f.1

/-- What holds of the dispatch of a signal: it belongs to the wave below it. -/
def DispatchSound (s : Machine κ ν ε) (node : ℕ) (listeners : List Listener) :
    List (Frame ε) → Prop
  | .wave id root tasks cleanupFrames :: _ =>
      s.NoRuns id ∧ s.Under root node ∧ (∀ f ∈ cleanupFrames, node ∉ s.ancestors f.1) ∧
        (∀ n, .fromParent n ∈ tasks → ∃ p, s.link n = some (.node p)) ∧
        ∀ child, .child child ∈ listeners → s.link child = some (.node node)
  | _ => False

/-- What holds of the methods of a foreign parent: a wave that has nothing else to do has
called them. -/
def ReadingSound (s : Machine κ ν ε) (node : ℕ) : List (Frame ε) → Prop
  | .wave id root tasks cleanupFrames :: _ =>
      s.NoRuns id ∧ node = root ∧ tasks = [] ∧ cleanupFrames = []
  | _ => False

/-- What holds of a frame, given those below it. -/
def FrameSound (s : Machine κ ν ε) (rest : List (Frame ε)) : Frame ε → Prop
  | .code (.reading node) => s.ReadingSound node rest
  | .code _ => True
  | .dispatch node listeners _ => s.DispatchSound node listeners rest
  | .wave id root tasks cleanupFrames => s.WaveSound id root tasks cleanupFrames rest

/-- What holds of the stack. -/
def StackSound (s : Machine κ ν ε) : List (Frame ε) → Prop
  | [] => True
  | frame :: rest => s.FrameSound rest frame ∧ s.StackSound rest

/-! ### Frames stay sound -/

/-- A later state, in which only waves that are not on the stack have run more cleanups. -/
structure Later (s s' : Machine κ ν ε) (rest : List (Frame ε)) : Prop where
  extends_ : Extends s s'
  ran : ∀ e ∈ s'.ran, e ∈ s.ran ∨ e.wave ∉ waves rest

/-- What has ended stays so. -/
theorem Extends.ended {s s' : Machine κ ν ε} (h : Extends s s') {n : ℕ} (hn : s.Ended n) :
  s'.Ended n
  := by
  obtain ⟨failure, hn⟩ := hn
  exact ⟨failure, h.observed hn⟩

/-- A context stays under the root. -/
theorem Extends.under {s s' : Machine κ ν ε} (hs : Grounded s) (h : Extends s s') {root n : ℕ}
    (hn : s.Under root n) :
  s'.Under root n
  := by
  obtain ⟨cell, hcell⟩ := hn.self.exists_cell
  have hancestors := h.ancestors hcell
  constructor
  case joined =>
    obtain rfl | hjoined := hn.joined
    · exact .inl rfl
    · exact .inr (h.below hjoined)
  case ended =>
    intro a ha hjoined
    rw [hancestors] at ha
    apply h.ended
    apply hn.ended ha
    have ha' : ∃ cell, s.cells a = some cell := by
      obtain rfl | ha := List.mem_cons.1 ha
      · exact ⟨cell, hcell⟩
      · exact hs.exists_cell ha
    obtain ⟨cell', hcell'⟩ := ha'
    exact hjoined.imp_right (h.below_back hs hcell')

/-- What is not above a context that has ended stays so. -/
theorem Extends.not_above {s s' : Machine κ ν ε} (h : Extends s s') {n m : ℕ} (hm : s.Ended m)
    (hn : n ∉ s.ancestors m) :
  n ∉ s'.ancestors m
  := by
  obtain ⟨cell, hcell⟩ := hm.exists_cell
  rw [h.ancestors hcell]
  exact hn

/-- A task stays sound. -/
theorem Extends.taskSound {s s' : Machine κ ν ε} (hs : Grounded s) (h : Extends s s') {root : ℕ}
    {task : Task ε} (htask : s.TaskSound root task) :
  s'.TaskSound root task
  := by
  cases task with
  | own node failure ending => exact htask
  | fromParent node =>
      obtain ⟨rfl, id, hlink⟩ | ⟨p, hlink, hp⟩ := htask
      · exact .inl ⟨rfl, id, h.link hlink⟩
      · exact .inr ⟨p, h.link hlink, h.under hs hp⟩

/-- A link that is known of a task is not another one later. -/
theorem TaskSound.link_eq {s s' : Machine κ ν ε} (h : Extends s s') {root n : ℕ}
    (htask : s.TaskSound root (.fromParent n : Task ε)) :
  s'.link n = s.link n
  := by
  obtain ⟨-, id, hlink⟩ | ⟨p, hlink, -⟩ := htask
  · rw [hlink, h.link hlink]
  · rw [hlink, h.link hlink]

/-- A wave runs nothing while others work. -/
theorem Later.noRuns {s s' : Machine κ ν ε} {rest : List (Frame ε)} (h : Later s s' rest)
    {id : ℕ} (hid : id ∈ waves rest) (hnone : s.NoRuns id) :
  s'.NoRuns id
  := by
  intro e he
  obtain he | he := h.ran e he
  · exact hnone e he
  · rintro rfl
    exact he hid

/-- A wave stays sound while others work. -/
theorem WaveSound.later {s s' : Machine κ ν ε} (hs : Grounded s) {id root : ℕ}
    {tasks : List (Task ε)} {cleanupFrames : List (ℕ × List Cleanup)} {rest : List (Frame ε)}
    (h : s.WaveSound id root tasks cleanupFrames rest) (hextends : Extends s s')
    (hran : ∀ e ∈ s'.ran, e ∈ s.ran ∨ e.wave ≠ id) :
  s'.WaveSound id root tasks cleanupFrames rest
  := by
  constructor
  case recent => exact Nat.lt_of_lt_of_le h.recent hextends.nextWave
  case last => exact h.last
  case idle =>
    intro htasks e he
    obtain he | he := hran e he
    · exact h.idle htasks e he
    · exact he
  case sound => exact fun task htask => hextends.taskSound hs (h.sound task htask)
  case alone =>
    intro n foreign hn hlink
    rw [(h.sound _ hn).link_eq hextends] at hlink
    exact h.alone hn hlink
  case under => exact fun f hf => hextends.under hs (h.under f hf)
  case above =>
    apply h.above.imp_of_mem
    intro f g _ hg hfg
    exact hextends.not_above (h.under g hg).self hfg
  case ran =>
    intro e he hid f hf
    obtain he | he := hran e he
    · exact hextends.not_above (h.under f hf).self (h.ran e he hid f hf)
    · exact (he hid).elim

/-- A dispatch stays sound while others work, given the wave below it. -/
theorem DispatchSound.later {s s' : Machine κ ν ε} (hs : Grounded s) {node : ℕ}
    {listeners : List Listener} {rest : List (Frame ε)} (h : s.DispatchSound node listeners rest)
    (hlater : Later s s' rest) (hrest : s.StackSound rest) :
  s'.DispatchSound node listeners rest
  := by
  cases rest with
  | nil => cases h
  | cons frame rest =>
      cases frame with
      | code | dispatch => cases h
      | wave id root tasks cleanupFrames =>
          obtain ⟨hnone, hunder, habove, hlinked, hlinks⟩ := h
          refine ⟨hlater.noRuns List.mem_cons_self hnone, hlater.extends_.under hs hunder, ?_, ?_,
            ?_⟩
          · intro f hf
            exact hlater.extends_.not_above (hrest.1.under f hf).self (habove f hf)
          · intro n hn
            obtain ⟨p, hlink⟩ := hlinked n hn
            exact ⟨p, hlater.extends_.link hlink⟩
          · exact fun child hchild => hlater.extends_.link (hlinks child hchild)

/-- The methods of a foreign parent stay what the wave is waiting for. -/
theorem ReadingSound.later {s s' : Machine κ ν ε} {node : ℕ} {rest : List (Frame ε)}
    (h : s.ReadingSound node rest) (hlater : Later s s' rest) :
  s'.ReadingSound node rest
  := by
  cases rest with
  | nil => cases h
  | cons frame rest =>
      cases frame with
      | code | dispatch => cases h
      | wave id root tasks cleanupFrames =>
          exact ⟨hlater.noRuns List.mem_cons_self h.1, h.2⟩

/-- What is below a frame is later as well. -/
theorem Later.tail {s s' : Machine κ ν ε} {frame : Frame ε} {rest : List (Frame ε)}
    (h : Later s s' (frame :: rest)) :
  Later s s' rest
  := by
  refine ⟨h.extends_, ?_⟩
  intro e he
  apply (h.ran e he).imp_right
  intro hnot hmem
  apply hnot
  rw [waves, List.filterMap_cons]
  cases waves.waveNumber frame with
  | none => exact hmem
  | some id => exact List.mem_cons_of_mem id hmem

/-- The stack stays sound while what is above it works. -/
theorem StackSound.later {s s' : Machine κ ν ε} (hs : Grounded s) {stack : List (Frame ε)}
    (h : s.StackSound stack) (hlater : Later s s' stack) :
  s'.StackSound stack
  := by
  induction stack with
  | nil => trivial
  | cons frame rest ih =>
      refine ⟨?_, ih h.2 hlater.tail⟩
      cases frame with
      | code origin =>
          cases origin with
          | host | listener | cleanup => trivial
          | reading node => exact ReadingSound.later h.1 hlater.tail
      | dispatch node listeners pending => exact DispatchSound.later hs h.1 hlater.tail h.2
      | wave id root tasks cleanupFrames =>
          apply WaveSound.later hs h.1 hlater.extends_
          intro e he
          apply (hlater.ran e he).imp_right
          intro hnot hid
          rw [hid] at hnot
          exact hnot List.mem_cons_self

end Machine

end ContextTree
