import Mathlib.Data.List.Basic
import Mathlib.Tactic.Cases

/-!
# Tasks chained on a tail

A task is chained on the promise that is the tail when it is appended, and becomes the tail. It
starts once that promise is fulfilled, and it is skipped once that promise is rejected. Tasks start
in the order in which they were appended, one at a time and each once, until one of them fails.
-/

/-- The state of a task. -/
inductive TaskStatus (ε : Type) where
  | waiting
  | running
  | fulfilled
  | rejected (failure : ε)

/-- A task with the task that it is chained on; the first one is chained on a promise that is
fulfilled. -/
structure ChainedTask (μ ε : Type) where
  message : μ
  after : Option ℕ
  status : TaskStatus ε

/-- Tasks in the order in which they were appended, the tail, and the messages whose tasks have
started, in the order in which they did. -/
structure PromiseChain (μ ε : Type) where
  tasks : List (ChainedTask μ ε)
  tail : Option ℕ
  started : List μ

variable {μ ε : Type}

/-- The task is over. -/
def TaskStatus.Settled (status : TaskStatus ε) : Prop :=
  status = .fulfilled ∨ ∃ failure, status = .rejected failure

namespace PromiseChain

/-- The chain without tasks. -/
def empty : PromiseChain μ ε := ⟨[], none, []⟩

def messages (c : PromiseChain μ ε) : List μ := c.tasks.map ChainedTask.message

def status (c : PromiseChain μ ε) (n : ℕ) : Option (TaskStatus ε) :=
  (c.tasks[n]?).map ChainedTask.status

/-- What a promise of the chain is settled with. -/
def result (c : PromiseChain μ ε) : Option ℕ → Option (Except ε Unit)
  | none => some (.ok ())
  | some n =>
      match c.status n with
      | some .fulfilled => some (.ok ())
      | some (.rejected failure) => some (.error failure)
      | _ => none

/-- Append a task. -/
def append (c : PromiseChain μ ε) (message : μ) : PromiseChain μ ε :=
  { c with tasks := c.tasks ++ [⟨message, c.tail, .waiting⟩], tail := some c.tasks.length }

def setStatus (c : PromiseChain μ ε) (n : ℕ) (status : TaskStatus ε) : PromiseChain μ ε :=
  { c with tasks := c.tasks.modify n fun task => { task with status } }

/-- A waiting task starts when the promise it is chained on is fulfilled. -/
def start (c : PromiseChain μ ε) (n : ℕ) : Option (PromiseChain μ ε) :=
  match c.tasks[n]? with
  | some ⟨message, after, .waiting⟩ =>
      match c.result after with
      | some (.ok _) => some { c.setStatus n .running with started := c.started ++ [message] }
      | _ => none
  | _ => none

/-- A waiting task is skipped when the promise it is chained on is rejected. -/
def skip (c : PromiseChain μ ε) (n : ℕ) : Option (PromiseChain μ ε) :=
  match c.tasks[n]? with
  | some ⟨_, after, .waiting⟩ =>
      match c.result after with
      | some (.error failure) => some (c.setStatus n (.rejected failure))
      | _ => none
  | _ => none

/-- A running task is over. -/
def finish (c : PromiseChain μ ε) (n : ℕ) (outcome : Except ε Unit) : Option (PromiseChain μ ε) :=
  match c.status n with
  | some .running =>
      match outcome with
      | .ok _ => some (c.setStatus n .fulfilled)
      | .error failure => some (c.setStatus n (.rejected failure))
  | _ => none

/-- What the tasks of a chain can do. -/
inductive Advance (c : PromiseChain μ ε) : PromiseChain μ ε → Prop where
  | starts {n : ℕ} {message : μ} {after : Option ℕ}
      (htask : c.tasks[n]? = some ⟨message, after, .waiting⟩)
      (hafter : c.result after = some (.ok ())) :
      Advance c { c.setStatus n .running with started := c.started ++ [message] }
  | skips {n : ℕ} {message : μ} {after : Option ℕ} {failure : ε}
      (htask : c.tasks[n]? = some ⟨message, after, .waiting⟩)
      (hafter : c.result after = some (.error failure)) :
      Advance c (c.setStatus n (.rejected failure))
  | finishes {n : ℕ} {status : TaskStatus ε} (hrunning : c.status n = some .running)
      (hstatus : status.Settled) : Advance c (c.setStatus n status)

section

variable {c c' : PromiseChain μ ε} {n : ℕ}

theorem start_eq_some (h : c.start n = some c') :
  ∃ message after, c.tasks[n]? = some ⟨message, after, .waiting⟩ ∧
    c.result after = some (.ok ()) ∧
    c' = { c.setStatus n .running with started := c.started ++ [message] }
  := by
  unfold start at h
  split at h
  case h_1 message after htask =>
    split at h
    case h_1 _ hafter =>
      cases h
      exact ⟨message, after, htask, hafter, rfl⟩
    case h_2 => cases h
  case h_2 => cases h

theorem skip_eq_some (h : c.skip n = some c') :
  ∃ message after failure, c.tasks[n]? = some ⟨message, after, .waiting⟩ ∧
    c.result after = some (.error failure) ∧ c' = c.setStatus n (.rejected failure)
  := by
  unfold skip at h
  split at h
  case h_1 message after htask =>
    split at h
    case h_1 failure hafter =>
      cases h
      exact ⟨message, after, failure, htask, hafter, rfl⟩
    case h_2 => cases h
  case h_2 => cases h

/-- The status of a task that is over. -/
def outcomeStatus : Except ε Unit → TaskStatus ε
  | .ok _ => .fulfilled
  | .error failure => .rejected failure

theorem finish_eq_some {outcome : Except ε Unit} (h : c.finish n outcome = some c') :
  c.status n = some .running ∧ c' = c.setStatus n (outcomeStatus outcome)
  := by
  unfold finish at h
  split at h
  case h_1 hrunning =>
    cases outcome with
    | ok | error =>
        cases h
        exact ⟨hrunning, rfl⟩
  case h_2 => cases h

theorem advance_start (h : c.start n = some c') :
  Advance c c'
  := by
  obtain ⟨message, after, htask, hafter, rfl⟩ := start_eq_some h
  exact .starts htask hafter

theorem advance_skip (h : c.skip n = some c') :
  Advance c c'
  := by
  obtain ⟨message, after, failure, htask, hafter, rfl⟩ := skip_eq_some h
  exact .skips htask hafter

theorem advance_finish {outcome : Except ε Unit} (h : c.finish n outcome = some c') :
  Advance c c'
  := by
  obtain ⟨hrunning, rfl⟩ := finish_eq_some h
  cases outcome with
  | ok u => exact .finishes hrunning (.inl rfl)
  | error failure => exact .finishes hrunning (.inr ⟨failure, rfl⟩)

/-! ### Reading a changed chain -/

theorem messages_setStatus (c : PromiseChain μ ε) (n : ℕ) (status : TaskStatus ε) :
  (c.setStatus n status).messages = c.messages
  := by
  apply List.ext_getElem?
  intro m
  rw [messages, messages, List.getElem?_map, List.getElem?_map, setStatus, List.getElem?_modify]
  split
  · cases c.tasks[m]? with
    | none | some => rfl
  · simp

theorem messages_append (c : PromiseChain μ ε) (message : μ) :
  (c.append message).messages = c.messages ++ [message]
  := List.map_append

theorem status_setStatus (c : PromiseChain μ ε) (n m : ℕ) (status : TaskStatus ε) :
  (c.setStatus n status).status m = if n = m then (c.status m).map fun _ => status else c.status m
  := by
  rw [PromiseChain.status, setStatus, List.getElem?_modify, PromiseChain.status]
  split
  · cases c.tasks[m]? with
    | none | some => rfl
  · simp

theorem status_setStatus_self {status status' : TaskStatus ε} (h : c.status n = some status') :
  (c.setStatus n status).status n = some status
  := by rw [status_setStatus, if_pos rfl, h]; rfl

theorem status_setStatus_ne {m : ℕ} (hne : n ≠ m) (status : TaskStatus ε) :
  (c.setStatus n status).status m = c.status m
  := by rw [status_setStatus, if_neg hne]

theorem status_append_of_lt {m : ℕ} (h : m < c.tasks.length) (message : μ) :
  (c.append message).status m = c.status m
  := by rw [status, append, List.getElem?_append_left h, status]

theorem status_append_last (c : PromiseChain μ ε) (message : μ) :
  (c.append message).status c.tasks.length = some .waiting
  := by
  rw [status, append]
  simp

theorem lt_of_status {status : TaskStatus ε} (h : c.status n = some status) :
  n < c.tasks.length
  := by
  rw [PromiseChain.status, Option.map_eq_some_iff] at h
  obtain ⟨task, htask, -⟩ := h
  exact (List.getElem?_eq_some_iff.1 htask).1

theorem status_of_task {task : ChainedTask μ ε} (h : c.tasks[n]? = some task) :
  c.status n = some task.status
  := by rw [status, h]; rfl

end

/-- The messages and the tail are those of before. -/
theorem Advance.same {c c' : PromiseChain μ ε} (h : Advance c c') :
  c'.messages = c.messages ∧ c'.tail = c.tail
  := by
  cases h with
  | starts | skips | finishes => exact ⟨messages_setStatus c _ _, rfl⟩

/-- A promise that is settled stays so. -/
theorem Advance.result {c c' : PromiseChain μ ε} (h : Advance c c') {p : Option ℕ}
    {outcome : Except ε Unit} (hp : c.result p = some outcome) :
  c'.result p = some outcome
  := by
  have hkeeps : ∀ (n : ℕ) (status : TaskStatus ε),
      c.status n = some .waiting ∨ c.status n = some .running →
      (c.setStatus n status).result p = some outcome := by
    intro n status hn
    cases p with
    | none => exact hp
    | some m =>
        rw [PromiseChain.result] at hp ⊢
        rw [status_setStatus_ne]
        · exact hp
        · rintro rfl
          obtain hn | hn := hn
          · rw [hn] at hp
            cases hp
          · rw [hn] at hp
            cases hp
  cases h with
  | starts htask hafter =>
      have hold := hkeeps _ .running (.inl (status_of_task htask))
      cases p with
      | none | some => exact hold
  | skips htask hafter => exact hkeeps _ _ (.inl (status_of_task htask))
  | finishes hrunning hstatus => exact hkeeps _ _ (.inr hrunning)

/-! ### Serial chains -/

/-- The task before another one. -/
def before : ℕ → Option ℕ
  | 0 => none
  | n + 1 => some n

/-- The tasks run one after the other: those that have started are the first ones, all of them
but the last one are fulfilled, and a task behind them is over only if the task before it is
rejected. -/
structure Serial (c : PromiseChain μ ε) : Prop where
  linked : ∀ n task, c.tasks[n]? = some task → task.after = before n
  tail : c.tail = before c.tasks.length
  started : c.started <+: c.messages
  opened : ∀ n, n < c.started.length → c.status n ≠ some .waiting
  finished : ∀ n, n + 1 < c.started.length → c.status n = some .fulfilled
  rest : ∀ n status, c.started.length ≤ n → c.status n = some status → status = .waiting ∨
    ∃ m failure failure', m + 1 = n ∧ status = .rejected failure ∧
      c.status m = some (.rejected failure')

namespace Serial

variable {c c' : PromiseChain μ ε} {n : ℕ}

theorem empty : Serial (PromiseChain.empty : PromiseChain μ ε) where
  linked _ _ h := by cases h
  tail := rfl
  started := List.nil_prefix
  opened _ h := absurd h (Nat.not_lt_zero _)
  finished _ h := absurd h (Nat.not_lt_zero _)
  rest _ _ _ h := by cases h

theorem length_started (h : Serial c) :
  c.started.length ≤ c.tasks.length
  := by
  have hle := h.started.length_le
  rwa [messages, List.length_map] at hle

/-- A task that runs, or that has been fulfilled, has started. -/
theorem lt_started (h : Serial c) {status : TaskStatus ε} (hstatus : c.status n = some status)
    (hrun : status = .running ∨ status = .fulfilled) :
  n < c.started.length
  := by
  by_contra hlt
  obtain hwaiting | ⟨_, _, _, _, hrejected, _⟩ := h.rest n status (Nat.le_of_not_lt hlt) hstatus
  · rw [hwaiting] at hrun
    obtain hrun | hrun := hrun
    · cases hrun
    · cases hrun
  · rw [hrejected] at hrun
    obtain hrun | hrun := hrun
    · cases hrun
    · cases hrun

/-- The task that runs is the last one that has started. -/
theorem running (h : Serial c) (hrunning : c.status n = some .running) :
  n + 1 = c.started.length
  := by
  have hlt := h.lt_started hrunning (.inl rfl)
  by_contra hne
  have hfinished := h.finished n (by omega)
  rw [hrunning] at hfinished
  cases hfinished

/-- At most one task runs. -/
theorem running_unique (h : Serial c) {m : ℕ} (hn : c.status n = some .running)
    (hm : c.status m = some .running) :
  n = m
  := by
  have hlast := h.running hn
  have hlast' := h.running hm
  omega

theorem linked_of_task (h : Serial c) {task : ChainedTask μ ε} (htask : c.tasks[n]? = some task) :
  c.result task.after = c.result (before n)
  := by rw [h.linked n task htask]

theorem result_before_ok {n : ℕ} (h : c.result (before n) = some (.ok ())) :
  n = 0 ∨ ∃ m, m + 1 = n ∧ c.status m = some .fulfilled
  := by
  cases n with
  | zero => exact .inl rfl
  | succ m =>
      right
      use m, rfl
      rw [before, result] at h
      split at h
      case h_1 hstatus => exact hstatus
      case h_2 => cases h
      case h_3 => cases h

theorem result_before_error {n : ℕ} {failure : ε}
    (h : c.result (before n) = some (.error failure)) :
  ∃ m, m + 1 = n ∧ c.status m = some (.rejected failure)
  := by
  cases n with
  | zero => cases h
  | succ m =>
      use m, rfl
      rw [before, result] at h
      split at h
      case h_1 => cases h
      case h_2 failure' hstatus =>
        cases h
        exact hstatus
      case h_3 => cases h

/-- The task that may start is the next one. -/
theorem next (h : Serial c) {message : μ} {after : Option ℕ}
    (htask : c.tasks[n]? = some ⟨message, after, .waiting⟩)
    (hafter : c.result after = some (.ok ())) :
  n = c.started.length
  := by
  have hwaiting := status_of_task htask
  have hle : c.started.length ≤ n := by
    by_contra hlt
    exact h.opened n (Nat.lt_of_not_le hlt) hwaiting
  rw [h.linked_of_task htask] at hafter
  obtain rfl | ⟨m, rfl, hm⟩ := result_before_ok hafter
  · omega
  · have hlt := h.lt_started hm (.inr rfl)
    omega

/-- The links of a chain whose tasks keep theirs. -/
theorem linked_setStatus (h : Serial c) (n : ℕ) (status : TaskStatus ε) (m : ℕ)
    (task : ChainedTask μ ε) (htask : (c.setStatus n status).tasks[m]? = some task) :
  task.after = before m
  := by
  rw [setStatus, List.getElem?_modify] at htask
  obtain ⟨task', htask', rfl⟩ := Option.map_eq_some_iff.1 htask
  have hafter := h.linked m task' htask'
  split
  · exact hafter
  · exact hafter

theorem length_setStatus (c : PromiseChain μ ε) (n : ℕ) (status : TaskStatus ε) :
  (c.setStatus n status).tasks.length = c.tasks.length
  := List.length_modify _ _ _

theorem append (h : Serial c) (message : μ) :
  Serial (c.append message)
  := by
  have hlength := h.length_started
  have hold : ∀ m status, m ≠ c.tasks.length → (c.append message).status m = some status →
      c.status m = some status := by
    intro m status hne hstatus
    have hlt := lt_of_status hstatus
    rw [PromiseChain.append, List.length_append, List.length_singleton] at hlt
    rwa [status_append_of_lt (by omega)] at hstatus
  constructor
  case linked =>
    intro m task htask
    rw [PromiseChain.append] at htask
    obtain hlt | heq := Nat.lt_or_ge m c.tasks.length
    · rw [List.getElem?_append_left hlt] at htask
      exact h.linked m task htask
    · rw [List.getElem?_append_right heq, List.getElem?_singleton] at htask
      split at htask
      case isTrue hm =>
        cases htask
        rw [h.tail, show m = c.tasks.length by omega]
      case isFalse => cases htask
  case tail =>
    rw [PromiseChain.append, List.length_append, List.length_singleton, before]
  case started =>
    rw [messages_append]
    exact h.started.trans (List.prefix_append _ _)
  case opened =>
    intro m hm
    have hm' : m < c.started.length := hm
    rw [status_append_of_lt (by omega)]
    exact h.opened m hm'
  case finished =>
    intro m hm
    have hm' : m + 1 < c.started.length := hm
    rw [status_append_of_lt (by omega)]
    exact h.finished m hm'
  case rest =>
    intro m status hm hstatus
    by_cases heq : m = c.tasks.length
    · rw [heq, status_append_last] at hstatus
      cases hstatus
      exact .inl rfl
    · obtain hwaiting | ⟨k, failure, failure', hk, hrejected, hbefore⟩ :=
        h.rest m status hm (hold m status heq hstatus)
      · exact .inl hwaiting
      · right
        use k, failure, failure', hk, hrejected
        rw [status_append_of_lt (lt_of_status hbefore)]
        exact hbefore

/-- The next task starts. -/
theorem starts (h : Serial c) {message : μ} {after : Option ℕ}
    (htask : c.tasks[n]? = some ⟨message, after, .waiting⟩)
    (hafter : c.result after = some (.ok ())) :
  Serial { c.setStatus n .running with started := c.started ++ [message] }
  := by
  have hnext := h.next htask hafter
  have hbefore : c.result (before n) = some (.ok ()) := by rwa [← h.linked_of_task htask]
  have hwaiting := status_of_task htask
  constructor
  case linked => exact h.linked_setStatus n .running
  case tail =>
    rw [length_setStatus]
    exact h.tail
  case started =>
    obtain ⟨more, hmore⟩ := h.started
    have hmessage : c.messages[n]? = some message := by
      rw [messages, List.getElem?_map, htask]
      rfl
    rw [← hmore, hnext, List.getElem?_append_right (Nat.le_refl _), Nat.sub_self] at hmessage
    cases more with
    | nil => cases hmessage
    | cons message' more =>
        cases hmessage
        use more
        rw [List.append_assoc]
        exact hmore.trans (messages_setStatus c n .running).symm
  case opened =>
    intro m hm hstatus
    have hm' : m < c.started.length + 1 := by rwa [List.length_append] at hm
    by_cases heq : n = m
    · subst heq
      have hrunning : (c.setStatus n .running).status n = some .running :=
        status_setStatus_self hwaiting
      cases hrunning.symm.trans hstatus
    · exact h.opened m (by omega) ((status_setStatus_ne heq .running).symm.trans hstatus)
  case finished =>
    intro m hm
    have hm' : m + 1 < c.started.length + 1 := by rwa [List.length_append] at hm
    have hold : c.status m = some .fulfilled := by
      obtain hzero | ⟨k, hk, hfulfilled⟩ := result_before_ok hbefore
      · omega
      · by_cases heq : k = m
        · rwa [← heq]
        · exact h.finished m (by omega)
    exact (status_setStatus_ne (by omega) .running).trans hold
  case rest =>
    intro m status hm hstatus
    have hm' : c.started.length + 1 ≤ m := by rwa [List.length_append] at hm
    have hold : c.status m = some status :=
      (status_setStatus_ne (by omega) .running).symm.trans hstatus
    obtain hstatus | ⟨k, failure, failure', hk, hrejected, hk'⟩ := h.rest m status (by omega) hold
    · exact .inl hstatus
    · right
      use k, failure, failure', hk, hrejected
      by_cases heq : n = k
      · rw [← heq, hwaiting] at hk'
        cases hk'
      · exact (status_setStatus_ne heq .running).trans hk'

/-- A task behind a rejected one is skipped. -/
theorem skips (h : Serial c) {message : μ} {after : Option ℕ} {failure : ε}
    (htask : c.tasks[n]? = some ⟨message, after, .waiting⟩)
    (hafter : c.result after = some (.error failure)) :
  Serial (c.setStatus n (.rejected failure))
  := by
  have hwaiting := status_of_task htask
  rw [h.linked_of_task htask] at hafter
  obtain ⟨k, hk, hrejected⟩ := result_before_error hafter
  constructor
  case linked => exact h.linked_setStatus n _
  case tail =>
    rw [length_setStatus]
    exact h.tail
  case started =>
    rw [messages_setStatus]
    exact h.started
  case opened =>
    intro m hm hstatus
    by_cases heq : n = m
    · subst heq
      exact h.opened n hm hwaiting
    · rw [status_setStatus_ne heq] at hstatus
      exact h.opened m hm hstatus
  case finished =>
    intro m hm
    by_cases heq : n = m
    · subst heq
      have hfinished := h.finished n hm
      rw [hwaiting] at hfinished
      cases hfinished
    · rw [status_setStatus_ne heq]
      exact h.finished m hm
  case rest =>
    intro m status hm hstatus
    by_cases heq : n = m
    · subst heq
      rw [status_setStatus_self hwaiting] at hstatus
      cases hstatus
      right
      use k, failure, failure, hk, rfl
      rw [status_setStatus_ne (by omega)]
      exact hrejected
    · rw [status_setStatus_ne heq] at hstatus
      obtain hstatus | ⟨j, failure', failure'', hj, hstatus, hbefore⟩ := h.rest m status hm hstatus
      · exact .inl hstatus
      · right
        use j, failure', failure'', hj, hstatus
        by_cases heq' : n = j
        · rw [← heq', hwaiting] at hbefore
          cases hbefore
        · rwa [status_setStatus_ne heq']

/-- The task that runs is over. -/
theorem finishes (h : Serial c) {status : TaskStatus ε} (hrunning : c.status n = some .running)
    (hstatus : status.Settled) :
  Serial (c.setStatus n status)
  := by
  have hlast := h.running hrunning
  constructor
  case linked => exact h.linked_setStatus n _
  case tail =>
    rw [length_setStatus]
    exact h.tail
  case started =>
    rw [messages_setStatus]
    exact h.started
  case opened =>
    intro m hm hwaiting
    by_cases heq : n = m
    · subst heq
      rw [status_setStatus_self hrunning] at hwaiting
      cases hwaiting
      obtain hstatus | ⟨_, hstatus⟩ := hstatus
      · cases hstatus
      · cases hstatus
    · rw [status_setStatus_ne heq] at hwaiting
      exact h.opened m hm hwaiting
  case finished =>
    intro m hm
    have hm' : m + 1 < c.started.length := hm
    rw [status_setStatus_ne (by omega)]
    exact h.finished m hm
  case rest =>
    intro m status' hm hstatus'
    have hm' : c.started.length ≤ m := hm
    rw [status_setStatus_ne (by omega)] at hstatus'
    obtain hwaiting | ⟨j, failure, failure', hj, hrejected, hbefore⟩ := h.rest m status' hm hstatus'
    · exact .inl hwaiting
    · right
      use j, failure, failure', hj, hrejected
      by_cases heq : n = j
      · rw [← heq, hrunning] at hbefore
        cases hbefore
      · rwa [status_setStatus_ne heq]

/-- Whatever the tasks of a serial chain do leaves it serial. -/
theorem advance (h : Serial c) (hadvance : Advance c c') :
  Serial c'
  := by
  cases hadvance with
  | starts htask hafter => exact h.starts htask hafter
  | skips htask hafter => exact h.skips htask hafter
  | finishes hrunning hstatus => exact h.finishes hrunning hstatus

/-! ### What a serial chain has done -/

/-- A task that is over has only tasks before it that are over. -/
theorem settled_of_le (h : Serial c) {m : ℕ} (hle : m ≤ n) {status : TaskStatus ε}
    (hn : c.status n = some status) (hsettled : status.Settled) :
  ∃ status', c.status m = some status' ∧ status'.Settled
  := by
  induction n generalizing status with
  | zero =>
      rw [Nat.le_zero.1 hle]
      exact ⟨status, hn, hsettled⟩
  | succ n ih =>
      by_cases heq : m = n + 1
      · subst heq
        exact ⟨status, hn, hsettled⟩
      · have hle' : m ≤ n := by omega
        obtain hlt | hge := Nat.lt_or_ge (n + 1) c.started.length
        · exact ih hle' (h.finished n hlt) (.inl rfl)
        · obtain hwaiting | ⟨k, _, failure', hk, _, hrejected⟩ := h.rest (n + 1) status hge hn
          · rw [hwaiting] at hsettled
            obtain hsettled | ⟨_, hsettled⟩ := hsettled
            · cases hsettled
            · cases hsettled
          · obtain rfl : k = n := by omega
            exact ih hle' hrejected (.inr ⟨failure', rfl⟩)

/-- Once the tail is settled, every task is. -/
theorem settled_of_tail (h : Serial c) (htail : (c.result c.tail).isSome) {status : TaskStatus ε}
    (hn : c.status n = some status) :
  status.Settled
  := by
  have hlt := lt_of_status hn
  obtain ⟨last, hlast⟩ := Nat.exists_eq_succ_of_ne_zero (Nat.ne_of_gt (Nat.zero_lt_of_lt hlt))
  have hsettled : ∃ status', c.status last = some status' ∧ status'.Settled := by
    rw [h.tail, hlast, before, result] at htail
    split at htail
    case h_1 hstatus => exact ⟨_, hstatus, .inl rfl⟩
    case h_2 failure hstatus => exact ⟨_, hstatus, .inr ⟨failure, rfl⟩⟩
    case h_3 => cases htail
  obtain ⟨status', hstatus', hsettled'⟩ := hsettled
  have hle : n ≤ last := by omega
  obtain ⟨status'', hstatus'', hsettled''⟩ := h.settled_of_le hle hstatus' hsettled'
  rw [hn] at hstatus''
  cases hstatus''
  exact hsettled''

/-- The rejected tasks are those from the last one that has started on. -/
theorem failed (h : Serial c) {failure : ε} (hn : c.status n = some (.rejected failure)) :
  ∃ m failure', m + 1 = c.started.length ∧ m ≤ n ∧ c.status m = some (.rejected failure') ∧
    ∀ k, k < m → c.status k = some .fulfilled
  := by
  induction n generalizing failure with
  | zero =>
      obtain hlt | hge := Nat.lt_or_ge 0 c.started.length
      · have hone : 0 + 1 = c.started.length := by
          by_contra hne
          have hfinished := h.finished 0 (by omega)
          rw [hn] at hfinished
          cases hfinished
        exact ⟨0, failure, hone, (Nat.le_refl _), hn, fun k hk => absurd hk (Nat.not_lt_zero k)⟩
      · obtain hwaiting | ⟨k, _, _, hk, _⟩ := h.rest 0 _ hge hn
        · cases hwaiting
        · omega
  | succ n ih =>
      obtain hlt | hge := Nat.lt_or_ge (n + 1) c.started.length
      · have hlast : n + 1 + 1 = c.started.length := by
          by_contra hne
          have hfinished := h.finished (n + 1) (by omega)
          rw [hn] at hfinished
          cases hfinished
        exact ⟨n + 1, failure, hlast, (Nat.le_refl _), hn, fun k hk => h.finished k (by omega)⟩
      · obtain hwaiting | ⟨k, _, failure', hk, _, hrejected⟩ := h.rest (n + 1) _ hge hn
        · cases hwaiting
        · obtain rfl : k = n := by omega
          obtain ⟨m, failure'', hm, hle, hstatus, hbefore⟩ := ih hrejected
          exact ⟨m, failure'', hm, by omega, hstatus, hbefore⟩

/-- Where every task is fulfilled, all messages have been started. -/
theorem started_eq (h : Serial c) (hfulfilled : ∀ n status, c.status n = some status →
    status = .fulfilled) :
  c.started = c.messages
  := by
  apply h.started.eq_of_length
  rw [messages, List.length_map]
  apply Nat.le_antisymm h.length_started
  by_contra hlt
  obtain ⟨task, htask⟩ : ∃ task, c.tasks[c.started.length]? = some task :=
    ⟨_, List.getElem?_eq_getElem (Nat.lt_of_not_le hlt)⟩
  have hstatus := status_of_task htask
  have hlt' := h.lt_started hstatus (.inr (hfulfilled _ _ hstatus))
  omega

/-- A task has failed. -/
def Failed (c : PromiseChain μ ε) : Prop := ∃ n failure, c.status n = some (.rejected failure)

theorem failed_append (hfailed : Failed c) (message : μ) :
  Failed (c.append message)
  := by
  obtain ⟨n, failure, hn⟩ := hfailed
  use n, failure
  rw [status_append_of_lt (lt_of_status hn)]
  exact hn

theorem failed_of_append {message : μ} (hfailed : Failed (c.append message)) :
  Failed c
  := by
  obtain ⟨n, failure, hn⟩ := hfailed
  use n, failure
  have hlt := lt_of_status hn
  rw [PromiseChain.append, List.length_append, List.length_singleton] at hlt
  by_cases heq : n = c.tasks.length
  · rw [heq, status_append_last] at hn
    cases hn
  · rwa [status_append_of_lt (by omega)] at hn

/-- After a failure nothing starts, and the failure remains. -/
theorem failed_advance (h : Serial c) (hfailed : Failed c) (hadvance : Advance c c') :
  c'.started = c.started ∧ Failed c'
  := by
  obtain ⟨n, failure, hn⟩ := hfailed
  have hkeeps : ∀ (m : ℕ) (status : TaskStatus ε),
      (∀ failure', c.status m ≠ some (.rejected failure')) → Failed (c.setStatus m status) := by
    intro m status hm
    use n, failure
    rw [status_setStatus_ne]
    · exact hn
    · rintro rfl
      exact hm failure hn
  cases hadvance with
  | @starts m message after htask hafter =>
      exfalso
      have hnext := h.next htask hafter
      rw [h.linked_of_task htask] at hafter
      obtain ⟨k, _, hk, _, hrejected, _⟩ := h.failed hn
      obtain hzero | ⟨j, hj, hfulfilled⟩ := result_before_ok hafter
      · omega
      · obtain rfl : k = j := by omega
        rw [hrejected] at hfulfilled
        cases hfulfilled
  | @skips m message after failure' htask hafter =>
      use rfl
      apply hkeeps
      intro failure'' hstatus
      rw [status_of_task htask] at hstatus
      cases hstatus
  | @finishes m status hrunning hstatus =>
      use rfl
      apply hkeeps
      intro failure' hstatus'
      rw [hrunning] at hstatus'
      cases hstatus'

theorem failed_setStatus {status : TaskStatus ε} (hfailed : Failed (c.setStatus n status))
    (hstatus : ∀ failure, status ≠ .rejected failure) :
  Failed c
  := by
  obtain ⟨m, failure, hm⟩ := hfailed
  use m, failure
  rw [status_setStatus] at hm
  split at hm
  case isTrue =>
    obtain ⟨_, _, heq⟩ := Option.map_eq_some_iff.1 hm
    exact absurd heq (hstatus failure)
  case isFalse => exact hm

/-- A task that starts has no part in a failure. -/
theorem failed_start (hstart : c.start n = some c') (hfailed : Failed c') :
  Failed c
  := by
  obtain ⟨message, after, -, -, rfl⟩ := start_eq_some hstart
  have hrunning : Failed (c.setStatus n .running) := hfailed
  apply failed_setStatus hrunning
  rintro failure ⟨⟩

/-- A task is skipped after a failure. -/
theorem failed_skip (h : Serial c) (hskip : c.skip n = some c') :
  Failed c
  := by
  obtain ⟨message, after, failure, htask, hafter, -⟩ := skip_eq_some hskip
  rw [h.linked_of_task htask] at hafter
  obtain ⟨k, _, hrejected⟩ := result_before_error hafter
  exact ⟨k, failure, hrejected⟩

theorem failed_complete (hfinish : c.finish n (.ok ()) = some c') (hfailed : Failed c') :
  Failed c
  := by
  obtain ⟨-, rfl⟩ := finish_eq_some hfinish
  apply failed_setStatus hfailed
  rintro failure ⟨⟩

/-- As long as a task waits, some task runs, may start or is to be skipped. -/
theorem progress (h : Serial c) (hwaiting : c.status n = some .waiting) :
  (∃ m, c.status m = some .running) ∨ (∃ m c', c.start m = some c') ∨ ∃ m c', c.skip m = some c'
  := by
  induction n using Nat.strongRecOn with
  | ind n ih =>
      rw [PromiseChain.status, Option.map_eq_some_iff] at hwaiting
      obtain ⟨⟨message, after, _⟩, htask, hstatus⟩ := hwaiting
      cases hstatus
      have hafter := h.linked n _ htask
      dsimp only at hafter
      subst hafter
      cases n with
      | zero =>
          right
          left
          use 0
          rw [start, htask]
          exact ⟨_, rfl⟩
      | succ m =>
          have hlt : m < c.tasks.length := by
            have hlt' := lt_of_status (status_of_task htask)
            omega
          obtain ⟨task, htask'⟩ : ∃ task, c.tasks[m]? = some task :=
            ⟨_, List.getElem?_eq_getElem hlt⟩
          have hstatus := status_of_task htask'
          cases hcase : task.status with
          | waiting =>
              rw [hcase] at hstatus
              exact ih m (Nat.lt_succ_self m) hstatus
          | running =>
              rw [hcase] at hstatus
              exact .inl ⟨m, hstatus⟩
          | fulfilled =>
              right
              left
              use m + 1
              rw [start, htask]
              dsimp only
              rw [before, result, hstatus, hcase]
              exact ⟨_, rfl⟩
          | rejected failure =>
              right
              right
              use m + 1
              rw [skip, htask]
              dsimp only
              rw [before, result, hstatus, hcase]
              exact ⟨_, rfl⟩

end Serial

end PromiseChain
