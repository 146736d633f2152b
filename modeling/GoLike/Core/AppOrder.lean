import GoLike.Core.AppRegistration
import Mathlib.Data.List.Count
import Mathlib.Data.List.Range

/-!
# The order of a shutdown

When no call of `stop` comes in the middle of the first part of a stop sequence, there is one stop
sequence, and what it does is a beginning of one list: the hooks before the stop, the
withdrawal of an instance that is held, the stops of the servers that were started, the wait for
them, and the hooks after the stop. When no such call comes from a server that is started before
others either, nor before a queued registration, nothing is begun after it.
-/

namespace Core

variable {cfg : AppConfig}

/-! ### Events -/

/-- A server is started, or the registration is begun. -/
def Event.isBegun : Event → Bool
  | .starts _ => true
  | .registers => true
  | _ => false

/-- The event is of a stop sequence. -/
def Event.isStop : Event → Bool
  | .deregisters held => held
  | .beforeStop _ => true
  | .stops _ => true
  | .waited => true
  | .afterStop _ => true
  | _ => false

/-- What stop sequences have done. -/
def stopEvents (log : List Event) : List Event := log.filter Event.isStop

theorem stopEvents_append (log log' : List Event) :
  stopEvents (log ++ log') = stopEvents log ++ stopEvents log'
  := List.filter_append log log'

theorem stopEvents_concat_of_not (log : List Event) {event : Event} (h : event.isStop = false) :
  stopEvents (log ++ [event]) = stopEvents log
  := by
  rw [stopEvents_append, stopEvents, stopEvents, List.filter_singleton, h]
  apply List.append_nil

/-- What a stop sequence does is nothing that a startup does. -/
theorem Event.isBegun_of_isStop {event : Event} (h : event.isStop = true) :
  event.isBegun = false
  := by
  cases event with
  | starts | registers => cases h
  | _ => rfl

/-! ### Phases of the startup -/

/-- The servers are being started. -/
def Startup.isLaunching : Startup → Bool
  | .launching _ => true
  | _ => false

/-- The servers are being started, or have been and the instance is being built. -/
def Startup.isLaunch : Startup → Bool
  | .launching _ => true
  | .launched => true
  | .building _ => true
  | .endpoint _ => true
  | _ => false

theorem Startup.isLaunch_of_isLaunching {s : Startup} (h : s.isLaunching = true) :
  s.isLaunch = true
  := by
  cases s with
  | launching started => rfl
  | _ => cases h

/-! ### The shutdown -/

/-- The withdrawal of an instance. -/
def withdrawal (withdrawn : Bool) : List Event := if withdrawn then [.deregisters true] else []

/-- The stops of the servers that were started. -/
def serverStops (cfg : AppConfig) (launched : Bool) : List Event :=
  if launched then (List.range cfg.servers).map .stops else []

/-- What a stop sequence does, in order. -/
def shutdown (cfg : AppConfig) (withdrawn launched : Bool) : List Event :=
  (List.range cfg.beforeStopHooks).map .beforeStop ++ withdrawal withdrawn ++
    serverStops cfg launched ++ [.waited] ++ (List.range cfg.afterStopHooks).map .afterStop

/-- What a stop sequence has done. -/
def progress (cfg : AppConfig) (withdrawn launched : Bool) : StopPhase → List Event
  | .cancelling => []
  | .joining => []
  | .beforeHooks ended =>
      (List.range (min (ended + 1) cfg.beforeStopHooks)).map .beforeStop
  | .deregistering => (List.range cfg.beforeStopHooks).map .beforeStop
  | .deregisterWait => (List.range cfg.beforeStopHooks).map .beforeStop ++ withdrawal withdrawn
  | .stopping => (List.range cfg.beforeStopHooks).map .beforeStop ++ withdrawal withdrawn
  | .stopWait =>
      (List.range cfg.beforeStopHooks).map .beforeStop ++ withdrawal withdrawn ++
        serverStops cfg launched
  | .settling =>
      (List.range cfg.beforeStopHooks).map .beforeStop ++ withdrawal withdrawn ++
        serverStops cfg launched
  | .afterHooks ended =>
      (List.range cfg.beforeStopHooks).map .beforeStop ++ withdrawal withdrawn ++
        serverStops cfg launched ++ [.waited] ++
        (List.range (min (ended + 1) cfg.afterStopHooks)).map .afterStop
  | .ended => shutdown cfg withdrawn launched

/-- What the stop sequence has done, if it has begun. -/
def progressOf (cfg : AppConfig) (withdrawn launched : Bool) : Option StopPhase → List Event
  | none => []
  | some phase => progress cfg withdrawn launched phase

theorem range_map_le {α : Type} {m n : ℕ} (h : m ≤ n) (f : ℕ → α) :
  (List.range m).map f <+: (List.range n).map f
  := by
  apply List.IsPrefix.map
  obtain ⟨k, rfl⟩ := Nat.exists_eq_add_of_le h
  rw [List.range_add]
  apply List.prefix_append

/-- A stop sequence does the beginning of a shutdown. -/
theorem progress_begins (withdrawn launched : Bool) (phase : StopPhase) :
  progress cfg withdrawn launched phase <+: shutdown cfg withdrawn launched
  := by
  have happend : ∀ l l' : List Event, l <+: l ++ l' := List.prefix_append
  cases phase with
  | cancelling | joining => apply List.nil_prefix
  | beforeHooks ended =>
      rw [progress, shutdown]
      simp only [List.append_assoc]
      exact (range_map_le (Nat.min_le_right _ _) _).trans (happend _ _)
  | deregistering =>
      rw [progress, shutdown]
      simp only [List.append_assoc]
      apply happend
  | deregisterWait | stopping =>
      rw [progress, shutdown, List.append_assoc, List.append_assoc]
      apply happend
  | stopWait | settling =>
      rw [progress, shutdown, List.append_assoc (_ ++ serverStops cfg launched)]
      apply happend
  | afterHooks ended =>
      rw [progress, shutdown]
      apply (List.prefix_append_right_inj _).mpr
      exact range_map_le (Nat.min_le_right _ _) _
  | ended => exact List.prefix_rfl

/-! ### Careful runs -/

/-- A stop is called. -/
inductive StopCall : App → App → Prop where
  | stops {a : App} : StopCall a a.stopApp
  | raceEnds {a : App} : StopCall a { a with run := .stopping }.stopApp

/-- A stop may be called: not in the first part of a stop sequence, and the first one neither by a
server that is started before others nor while the call of the registrar is queued. -/
structure App.AdmitsStop (cfg : AppConfig) (a : App) : Prop where
  again : a.stopRequested = true → a.stopPromise.isSome = true
  registering : a.stopRequested = false → a.startup ≠ .registering
  launching : a.stopRequested = false →
    ∀ started, a.startup = .launching started → ¬ started < cfg.servers

/-- A step that is no call of `stop` where it may not be called. -/
def CarefulStep (cfg : AppConfig) (a a' : App) : Prop :=
  AppStep cfg a a' ∧ (StopCall a a' → a.AdmitsStop cfg)

variable {a a' : App}

/-- A call of `stop` before the promise is known begins a stop sequence. -/
theorem StopCall.length_sequences (h : StopCall a a') (hpromise : a.stopPromise = none) :
  a'.sequences.length = a.sequences.length + 1
  := by
  cases h with
  | stops | raceEnds =>
      rw [App.stopApp, App.requestStop]
      split
      · simp [hpromise]
      · simp [App.note, hpromise]

/-- A step that begins no stop sequence. -/
theorem careful_of_length (hstep : AppStep cfg a a') (hpromise : a.stopPromise = none)
    (hlength : a'.sequences.length = a.sequences.length) :
  CarefulStep cfg a a'
  := by
  refine ⟨hstep, fun hcall => ?_⟩
  have hnext := hcall.length_sequences hpromise
  omega

/-- A step when the promise of the stop sequence is known. -/
theorem careful_of_promise (hstep : AppStep cfg a a') (hrequested : a.stopRequested = true)
    (hpromise : a.stopPromise.isSome = true) :
  CarefulStep cfg a a'
  := by
  refine ⟨hstep, fun _ => ⟨fun _ => hpromise, ?_, ?_⟩⟩
  · rw [hrequested]
    rintro ⟨⟩
  · rw [hrequested]
    rintro ⟨⟩

namespace App

variable {a a' : App} {i : ℕ}

/-- What holds of the log. -/
structure Ordered (cfg : AppConfig) (a : App) : Prop where
  requested : .requested ∈ a.log → a.stopRequested = true
  unrequested : a.stopRequested = false → a.sequences = [] ∧ a.stopPromise = none
  once : a.sequences.length ≤ 1
  begun : a.log.Pairwise (fun e f => e = .requested → f.isBegun = false)
  registering : a.stopRequested = true → a.startup ≠ .registering
  launching : a.stopRequested = true →
    ∀ started, a.startup = .launching started → ¬ started < cfg.servers
  frame : ∀ started, a.startup = .launching started → .run ∈ a.stack
  invoked : ∀ server, .starts server ∈ a.log ∨ .endpoint server ∈ a.log →
    a.serversLaunched = true ∧ server < cfg.servers
  prepared : ∀ server ∈ a.preparedServers, a.serversLaunched = true
  launched : a.stopRequested = false → a.startup.isLaunch = true → a.serversLaunched = true
  started : a.serversLaunched = true → ∀ server < cfg.servers, .starts server ∈ a.log ∨
    ∃ started ≤ server, a.startup = .launching started
  progress : ∃ withdrawn, stopEvents a.log =
    progressOf cfg withdrawn a.serversLaunched a.sequences.head?

theorem ordered_newApp :
  newApp.Ordered cfg
  := by
  constructor
  case requested => exact fun h => absurd h List.not_mem_nil
  case unrequested => exact fun _ => ⟨rfl, rfl⟩
  case once => exact Nat.zero_le 1
  case begun => exact List.Pairwise.nil
  case registering => rintro ⟨⟩
  case launching => rintro ⟨⟩
  case frame => rintro _ ⟨⟩
  case invoked =>
    rintro _ (h | h)
    · exact absurd h List.not_mem_nil
    · exact absurd h List.not_mem_nil
  case prepared => exact fun _ h => absurd h List.not_mem_nil
  case launched => rintro - ⟨⟩
  case started => rintro ⟨⟩
  case progress =>
    use false
    rfl

/-! ### Steps of the startup -/

/-- What the order is about, apart from the startup, is the same. -/
structure SameOrder (a a' : App) : Prop where
  log : a'.log = a.log
  stopRequested : a'.stopRequested = a.stopRequested
  stopPromise : a'.stopPromise = a.stopPromise
  sequences : a'.sequences = a.sequences
  serversLaunched : a'.serversLaunched = a.serversLaunched
  preparedServers : ∀ server ∈ a'.preparedServers,
    server ∈ a.preparedServers ∨ a.serversLaunched = true

/-- A step that begins nothing. -/
theorem Ordered.proceed (h : a.Ordered cfg) (hsame : a.SameOrder a')
    (hregistering : a.stopRequested = true → a'.startup = .registering → a.startup = .registering)
    (hlaunching : ∀ n, a'.startup = .launching n → a.startup = .launching n ∧
      (.run ∈ a.stack → .run ∈ a'.stack))
    (hlaunched : ∀ n, a.startup = .launching n → a'.startup = .launching n ∨ ¬ n < cfg.servers)
    (hlaunch : a.stopRequested = false → a'.startup.isLaunch = true → a.startup.isLaunch = true) :
  a'.Ordered cfg
  := by
  constructor
  case requested =>
    rw [hsame.log, hsame.stopRequested]
    apply h.requested
  case unrequested =>
    rw [hsame.stopRequested, hsame.sequences, hsame.stopPromise]
    apply h.unrequested
  case once =>
    rw [hsame.sequences]
    apply h.once
  case begun =>
    rw [hsame.log]
    apply h.begun
  case registering =>
    rw [hsame.stopRequested]
    exact fun hstop hr => h.registering hstop (hregistering hstop hr)
  case launching =>
    rw [hsame.stopRequested]
    exact fun hstop n hn => h.launching hstop n (hlaunching n hn).1
  case frame =>
    intro n hn
    obtain ⟨hbefore, hstack⟩ := hlaunching n hn
    exact hstack (h.frame n hbefore)
  case invoked =>
    rw [hsame.log, hsame.serversLaunched]
    apply h.invoked
  case prepared =>
    rw [hsame.serversLaunched]
    intro server hserver
    obtain hs | hlaunched := hsame.preparedServers server hserver
    · exact h.prepared server hs
    · exact hlaunched
  case launched =>
    rw [hsame.stopRequested, hsame.serversLaunched]
    exact fun hstop hl => h.launched hstop (hlaunch hstop hl)
  case started =>
    rw [hsame.log, hsame.serversLaunched]
    intro hl server hserver
    obtain hs | ⟨n, hn, hlaunching⟩ := h.started hl server hserver
    · exact .inl hs
    · obtain hafter | hdone := hlaunched n hlaunching
      · exact .inr ⟨n, hn, hafter⟩
      · exact absurd (Nat.lt_of_le_of_lt hn hserver) hdone
  case progress =>
    rw [hsame.log, hsame.serversLaunched, hsame.sequences]
    apply h.progress

/-- A step of the startup, not to the launch of the servers. -/
theorem Ordered.moves (h : a.Ordered cfg) (hsame : a.SameOrder a')
    (hbefore : ∀ n, a.startup = .launching n → ¬ n < cfg.servers)
    (hafter : a'.startup.isLaunching = false)
    (hregistering : a.stopRequested = true → a'.startup ≠ .registering)
    (hlaunch : a.stopRequested = false → a'.startup.isLaunch = true → a.startup.isLaunch = true) :
  a'.Ordered cfg
  := by
  refine h.proceed hsame (fun hstop hr => absurd hr (hregistering hstop)) ?_
    (fun n hn => .inr (hbefore n hn)) hlaunch
  intro n hn
  rw [hn] at hafter
  cases hafter

/-- A step of the startup to something else than the launch and the registration. -/
theorem Ordered.leaves (h : a.Ordered cfg) (hsame : a.SameOrder a')
    (hbefore : a.startup.isLaunching = false) (hafter : a'.startup.isLaunch = false)
    (hregistering : a'.startup ≠ .registering) :
  a'.Ordered cfg
  := by
  apply h.moves hsame
  · intro n hn
    rw [hn] at hbefore
    cases hbefore
  · cases hl : a'.startup.isLaunching with
    | false => rfl
    | true =>
        rw [Startup.isLaunch_of_isLaunching hl] at hafter
        cases hafter
  · exact fun _ => hregistering
  · intro _ hl
    rw [hafter] at hl
    cases hl

/-- Something is noted that is neither begun nor of a stop sequence. -/
theorem Ordered.note (h : a.Ordered cfg) {event : Event} (hrequested : event ≠ .requested)
    (hbegun : event.isBegun = true → a.stopRequested = false)
    (hinvoked : ∀ server, event = .starts server ∨ event = .endpoint server →
      a.serversLaunched = true ∧ server < cfg.servers)
    (hstop : event.isStop = false) :
  (a.note event).Ordered cfg
  := by
  constructor
  case requested =>
    intro hmem
    obtain hmem | hmem := List.mem_append.mp hmem
    · exact h.requested hmem
    · exact absurd (List.mem_singleton.mp hmem).symm hrequested
  case unrequested => exact h.unrequested
  case once => exact h.once
  case begun =>
    apply List.pairwise_append.mpr
    refine ⟨h.begun, List.pairwise_singleton _ _, ?_⟩
    rintro e he f hf rfl
    rw [List.mem_singleton.mp hf]
    cases hb : event.isBegun with
    | false => rfl
    | true =>
        have hstopped := h.requested he
        rw [hbegun hb] at hstopped
        cases hstopped
  case registering => exact h.registering
  case launching => exact h.launching
  case frame => exact h.frame
  case invoked =>
    intro server hmem
    obtain hmem | hmem := hmem
    · obtain hmem | hmem := List.mem_append.mp hmem
      · exact h.invoked server (.inl hmem)
      · exact hinvoked server (.inl (List.mem_singleton.mp hmem).symm)
    · obtain hmem | hmem := List.mem_append.mp hmem
      · exact h.invoked server (.inr hmem)
      · exact hinvoked server (.inr (List.mem_singleton.mp hmem).symm)
  case prepared => exact h.prepared
  case launched => exact h.launched
  case started =>
    intro hlaunched server hserver
    obtain hs | hlaunching := h.started hlaunched server hserver
    · exact .inl (List.mem_append_left _ hs)
    · exact .inr hlaunching
  case progress =>
    rw [App.note, stopEvents_concat_of_not _ hstop]
    exact h.progress

/-- The startup goes on behind the registration. -/
theorem Ordered.startAfterHooks (h : a.Ordered cfg) (hbefore : a.startup.isLaunching = false) :
  a.startAfterHooks.Ordered cfg
  := by
  have hcases : a.startAfterHooks.startup = .settled true ∨
      a.startAfterHooks.startup = .afterHooks 0 := by
    rw [App.startAfterHooks]
    split
    · exact .inl rfl
    · exact .inr rfl
  refine h.leaves ⟨rfl, rfl, rfl, rfl, rfl, fun _ => .inl⟩ hbefore ?_ ?_
  · obtain hs | hs := hcases
    · rw [hs]
      rfl
    · rw [hs]
      rfl
  · obtain hs | hs := hcases
    · rw [hs]
      rintro ⟨⟩
    · rw [hs]
      rintro ⟨⟩

variable {stack : List Frame}

theorem Ordered.executeStart (h : a.Ordered cfg) (hstartup : a.startup = .installing) :
  (a.executeStart cfg stack).Ordered cfg
  := by
  have hbefore : a.startup.isLaunching = false := by
    rw [hstartup]
    rfl
  rw [App.executeStart]
  split
  case isTrue hrequested =>
    refine h.moves ⟨rfl, rfl, rfl, rfl, rfl, fun _ => .inl⟩ ?_ rfl ?_ ?_
    · rw [hstartup]
      rintro _ ⟨⟩
    · rintro _ ⟨⟩
    · rw [hrequested]
      rintro ⟨⟩
  case isFalse hrequested =>
    split
    · refine h.leaves ⟨rfl, rfl, rfl, rfl, rfl, fun _ => .inl⟩ hbefore rfl ?_
      rintro ⟨⟩
    · refine h.leaves ⟨rfl, rfl, rfl, rfl, rfl, fun _ => .inl⟩ hbefore rfl ?_
      rintro ⟨⟩

/-- The next server is started. -/
theorem Ordered.startsNext (h : a.Ordered cfg) {n : ℕ} (hstartup : a.startup = .launching n)
    (hn : n < cfg.servers) (hrequested : a.stopRequested = false) :
  ({ a with startup := .launching (n + 1) }.note (.starts n)).Ordered cfg
  := by
  have hlaunched : a.serversLaunched = true := by
    apply h.launched hrequested
    rw [hstartup]
    rfl
  constructor
  case requested =>
    intro hmem
    obtain hmem | hmem := List.mem_append.mp hmem
    · exact h.requested hmem
    · cases List.mem_singleton.mp hmem
  case unrequested => exact h.unrequested
  case once => exact h.once
  case begun =>
    apply List.pairwise_append.mpr
    refine ⟨h.begun, List.pairwise_singleton _ _, ?_⟩
    rintro e he f hf rfl
    have hstopped := h.requested he
    rw [hrequested] at hstopped
    cases hstopped
  case registering => rintro _ ⟨⟩
  case launching =>
    intro hstop
    rw [App.note, hrequested] at hstop
    cases hstop
  case frame => exact fun _ _ => h.frame n hstartup
  case invoked =>
    rintro server (hmem | hmem)
    · obtain hmem | hmem := List.mem_append.mp hmem
      · exact h.invoked server (.inl hmem)
      · cases List.mem_singleton.mp hmem
        exact ⟨hlaunched, hn⟩
    · obtain hmem | hmem := List.mem_append.mp hmem
      · exact h.invoked server (.inr hmem)
      · cases List.mem_singleton.mp hmem
  case prepared => exact h.prepared
  case launched => exact fun _ _ => hlaunched
  case started =>
    intro _ server hserver
    obtain hs | ⟨m, hm, hlaunching⟩ := h.started hlaunched server hserver
    · exact .inl (List.mem_append_left _ hs)
    · obtain rfl : m = n := by
        rw [hstartup] at hlaunching
        exact (Startup.launching.inj hlaunching).symm
      obtain rfl | hlt := Nat.eq_or_lt_of_le hm
      · exact .inl (List.mem_append_right _ List.mem_cons_self)
      · exact .inr ⟨m + 1, hlt, rfl⟩
  case progress =>
    rw [App.note, stopEvents_concat_of_not _ rfl]
    exact h.progress

/-- The servers are started when no stop has been requested, so that no stop sequence has begun. -/
theorem Ordered.launch (h : a.Ordered cfg) (hstartup : a.startup = .beforeHooks cfg.beforeStartHooks) :
  (a.launch cfg).Ordered cfg
  := by
  have hbefore : ∀ n, a.startup = .launching n → ¬ n < cfg.servers := by
    rw [hstartup]
    rintro _ ⟨⟩
  rw [App.launch]
  split
  case isTrue hrequested =>
    refine h.moves ⟨rfl, rfl, rfl, rfl, rfl, fun _ => .inl⟩ hbefore rfl ?_ ?_
    · rintro _ ⟨⟩
    · rw [hrequested]
      rintro ⟨⟩
  case isFalse hrequested =>
    obtain ⟨hsequences, hpromise⟩ := h.unrequested (Bool.eq_false_iff.mpr hrequested)
    obtain ⟨withdrawn, hprogress⟩ := h.progress
    rw [hsequences] at hprogress
    split
    case isTrue hservers =>
      constructor
      case requested => exact h.requested
      case unrequested => exact h.unrequested
      case once => exact h.once
      case begun => exact h.begun
      case registering => rintro _ ⟨⟩
      case launching => rintro _ _ ⟨⟩
      case frame => rintro _ ⟨⟩
      case invoked => exact fun server hs => ⟨rfl, (h.invoked server hs).2⟩
      case prepared => exact fun _ _ => rfl
      case launched => exact fun _ _ => rfl
      case started =>
        intro _ server hserver
        rw [hservers] at hserver
        exact absurd hserver (Nat.not_lt_zero server)
      case progress =>
        use withdrawn
        rw [hsequences]
        exact hprogress
    case isFalse hservers =>
      have hlaunched : Ordered cfg
          { a with
            serversLaunched := true
            startup := .launching 0
            stack := .run :: a.stack } := by
        constructor
        case requested => exact h.requested
        case unrequested => exact h.unrequested
        case once => exact h.once
        case begun => exact h.begun
        case registering => rintro _ ⟨⟩
        case launching => exact fun hstop => absurd hstop hrequested
        case frame => exact fun _ _ => List.mem_cons_self
        case invoked => exact fun server hs => ⟨rfl, (h.invoked server hs).2⟩
        case prepared => exact fun _ _ => rfl
        case launched => exact fun _ _ => rfl
        case started => exact fun _ server _ => .inr ⟨0, Nat.zero_le server, rfl⟩
        case progress =>
          use withdrawn
          rw [hsequences]
          exact hprogress
      apply hlaunched.startsNext rfl (Nat.pos_of_ne_zero hservers)
      exact Bool.eq_false_iff.mpr hrequested

/-- The endpoint of the next server is asked for. -/
theorem Ordered.buildNext (h : a.Ordered cfg) {visited : ℕ}
    (hstartup : a.startup = .building visited) :
  (a.buildNext cfg visited).Ordered cfg
  := by
  have hbefore : a.startup.isLaunching = false := by
    rw [hstartup]
    rfl
  have hlaunch : a.startup.isLaunch = true := by
    rw [hstartup]
    rfl
  rw [App.buildNext]
  split
  case isTrue hdone =>
    refine h.leaves ⟨rfl, rfl, rfl, rfl, rfl, fun _ => .inl⟩ hbefore rfl ?_
    rintro ⟨⟩
  case isFalse hdone =>
    obtain ⟨hstop, hvisited⟩ := not_or.mp (mt Bool.or_eq_true_iff.mpr hdone)
    have hrequested : a.stopRequested = false := Bool.eq_false_iff.mpr hstop
    have hlt : visited < cfg.servers := by simpa using hvisited
    have hlaunched := h.launched hrequested hlaunch
    split
    · have hprepared : Ordered cfg
          { a with
            preparedServers := a.preparedServers ++ [visited]
            startup := .endpoint visited } := by
        refine h.moves ⟨rfl, rfl, rfl, rfl, rfl, fun _ _ => .inr hlaunched⟩ ?_ rfl ?_
          (fun _ _ => hlaunch)
        · rw [hstartup]
          rintro _ ⟨⟩
        · rintro _ ⟨⟩
      apply hprepared.note
      · rintro ⟨⟩
      · rintro ⟨⟩
      · rintro server (heq | heq)
        · cases heq
        · obtain rfl := Event.endpoint.inj heq
          exact ⟨hlaunched, hlt⟩
      · rfl
    · refine h.moves ⟨rfl, rfl, rfl, rfl, rfl, fun _ => .inl⟩ ?_ rfl ?_ (fun _ _ => hlaunch)
      · rw [hstartup]
        rintro _ ⟨⟩
      · rintro _ ⟨⟩

theorem Ordered.startBuilding (h : a.Ordered cfg) (hstartup : a.startup = .launched) :
  (a.startBuilding cfg).Ordered cfg
  := by
  have hbefore : a.startup.isLaunching = false := by
    rw [hstartup]
    rfl
  rw [App.startBuilding]
  split
  · refine h.moves ⟨rfl, rfl, rfl, rfl, rfl, fun _ => .inl⟩ ?_ ?_ ?_ ?_
    · rw [hstartup]
      rintro _ ⟨⟩
    · dsimp only
      split
      · rfl
      · rfl
    · dsimp only
      split
      · rintro _ ⟨⟩
      · rintro _ ⟨⟩
    · rw [hstartup]
      exact fun _ _ => rfl
  · exact h.startAfterHooks hbefore

theorem Ordered.register (h : a.Ordered cfg) (hstartup : a.startup = .built) :
  a.register.Ordered cfg
  := by
  rw [App.register]
  split
  case isTrue hrequested =>
    apply h.startAfterHooks
    rw [hstartup]
    rfl
  case isFalse hrequested =>
    refine h.moves ⟨rfl, rfl, rfl, rfl, rfl, fun _ => .inl⟩ ?_ rfl ?_ ?_
    · rw [hstartup]
      rintro _ ⟨⟩
    · exact fun hstop => absurd hstop hrequested
    · rintro _ ⟨⟩

theorem Ordered.registered (h : a.Ordered cfg) (hstartup : a.startup = .registerWait) :
  a.registered.Ordered cfg
  := by
  have hgoes : ∀ b : App, a.SameOrder b → b.startup = a.startup →
      b.startAfterHooks.Ordered cfg := by
    intro b hsame hb
    rw [hstartup] at hb
    apply Ordered.startAfterHooks
    · apply h.leaves hsame
      · rw [hstartup]
        rfl
      · rw [hb]
        rfl
      · rw [hb]
        rintro ⟨⟩
    · rw [hb]
      rfl
  rw [App.registered]
  split
  · exact hgoes _ ⟨rfl, rfl, rfl, rfl, rfl, fun _ => .inl⟩ rfl
  · exact hgoes _ ⟨rfl, rfl, rfl, rfl, rfl, fun _ => .inl⟩ rfl

/-- Nothing changes but what the order is not about. -/
theorem Ordered.same (h : a.Ordered cfg) (hsame : a.SameOrder a') (hstartup : a'.startup = a.startup)
    (hstack : .run ∈ a.stack → .run ∈ a'.stack) :
  a'.Ordered cfg
  := by
  apply h.proceed hsame
  · rw [hstartup]
    exact fun _ hr => hr
  · rw [hstartup]
    exact fun _ hn => ⟨hn, hstack⟩
  · rw [hstartup]
    exact fun _ hn => .inl hn
  · rw [hstartup]
    exact fun _ hl => hl

/-! ### The stop sequence -/

variable {phase : StopPhase}

/-- While a stop sequence is under way, it is the only one, and a stop has been requested. -/
theorem Ordered.only (h : a.Ordered cfg) (hphase : a.sequences[i]? = some phase) :
  a.stopRequested = true ∧ i = 0 ∧ a.sequences = [phase]
  := by
  have hone : a.sequences.length = 1 := by
    have hlt := (List.getElem?_eq_some_iff.mp hphase).1
    have honce := h.once
    omega
  obtain ⟨only, hsequences⟩ := List.length_eq_one_iff.mp hone
  have hrequested : a.stopRequested = true := by
    cases hstop : a.stopRequested with
    | true => rfl
    | false =>
        obtain ⟨hnil, -⟩ := h.unrequested hstop
        rw [hnil] at hone
        cases hone
  rw [hsequences] at hphase ⊢
  cases i with
  | zero =>
      cases Option.some.inj hphase
      exact ⟨hrequested, rfl, rfl⟩
  | succ i => cases hphase

variable {old new : StopPhase}

/-- A stop sequence does something and goes on. -/
theorem Ordered.goesOn (h : a.Ordered cfg) {events : List Event}
    (hphase : a.sequences[i]? = some old) (hevents : ∀ event ∈ events, event.isStop = true)
    (hprogress : ∀ withdrawn, ∃ withdrawn', Core.progress cfg withdrawn a.serversLaunched old ++ events = Core.progress cfg withdrawn' a.serversLaunched new) :
  ({ a with log := a.log ++ events }.setPhase i new).Ordered cfg
  := by
  obtain ⟨hrequested, rfl, hsequences⟩ := h.only hphase
  have hnot : ∀ event : Event, event.isStop = false → event ∈ a.log ++ events → event ∈ a.log := by
    intro event hstop hmem
    obtain hmem | hmem := List.mem_append.mp hmem
    · exact hmem
    · rw [hevents event hmem] at hstop
      cases hstop
  constructor
  case requested => exact fun _ => hrequested
  case unrequested =>
    intro hstop
    rw [App.setPhase, hrequested] at hstop
    cases hstop
  case once =>
    rw [App.setPhase, hsequences]
    exact Nat.le_refl 1
  case begun =>
    apply List.pairwise_append.mpr
    refine ⟨h.begun, ?_, fun _ _ event he _ => Event.isBegun_of_isStop (hevents event he)⟩
    apply List.pairwise_of_forall_mem_list
    exact fun _ _ event he _ => Event.isBegun_of_isStop (hevents event he)
  case registering => exact h.registering
  case launching => exact h.launching
  case frame => exact h.frame
  case invoked =>
    rintro server (hmem | hmem)
    · exact h.invoked server (.inl (hnot _ rfl hmem))
    · exact h.invoked server (.inr (hnot _ rfl hmem))
  case prepared => exact h.prepared
  case launched => exact h.launched
  case started =>
    intro hlaunched server hserver
    obtain hs | hlaunching := h.started hlaunched server hserver
    · exact .inl (List.mem_append_left _ hs)
    · exact .inr hlaunching
  case progress =>
    obtain ⟨withdrawn, hbefore⟩ := h.progress
    obtain ⟨withdrawn', hafter⟩ := hprogress withdrawn
    use withdrawn'
    rw [hsequences] at hbefore
    rw [App.setPhase, hsequences, stopEvents_append, hbefore, stopEvents,
      List.filter_eq_self.mpr hevents]
    exact hafter

/-- A stop sequence goes on. -/
theorem Ordered.setPhase (h : a.Ordered cfg) (hphase : a.sequences[i]? = some old)
    (hprogress : ∀ withdrawn, ∃ withdrawn', Core.progress cfg withdrawn a.serversLaunched old = Core.progress cfg withdrawn' a.serversLaunched new) :
  (a.setPhase i new).Ordered cfg
  := by
  have hlog : a = { a with log := a.log ++ [] } := by rw [List.append_nil]
  rw [hlog]
  apply h.goesOn hphase
  · exact fun _ he => absurd he List.not_mem_nil
  · simp only [List.append_nil]
    exact hprogress

/-- A stop sequence comes to its first wait. -/
theorem Ordered.returnStop (h : a.Ordered cfg) (hphase : a.sequences[i]? = some phase)
    (hstack : .run ∈ a.stack → .run ∈ stack) :
  (a.returnStop i stack).Ordered cfg
  := by
  obtain ⟨hrequested, -, -⟩ := h.only hphase
  constructor
  case requested => exact h.requested
  case unrequested =>
    intro hstop
    rw [App.returnStop, hrequested] at hstop
    cases hstop
  case once => exact h.once
  case begun => exact h.begun
  case registering => exact h.registering
  case launching => exact h.launching
  case frame => exact fun n hn => hstack (h.frame n hn)
  case invoked => exact h.invoked
  case prepared => exact h.prepared
  case launched => exact h.launched
  case started => exact h.started
  case progress => exact h.progress

/-- The hooks that have been called, and the next one. -/
theorem hooks_next {α : Type} (f : ℕ → α) (k n : ℕ) :
  (List.range (min k n)).map f ++ (if k < n then [f k] else []) =
    (List.range (min (k + 1) n)).map f
  := by
  split
  case isTrue hlt =>
    rw [Nat.min_eq_left (Nat.le_of_lt hlt), Nat.min_eq_left hlt, List.range_succ, List.map_append]
    rfl
  case isFalse hle =>
    have hn := Nat.le_of_not_lt hle
    rw [Nat.min_eq_right hn, Nat.min_eq_right (Nat.le_succ_of_le hn)]
    apply List.append_nil

/-- The next of the hooks before the stop is called. -/
theorem Ordered.beforeStopHook (h : a.Ordered cfg) {hook : ℕ} (hphase : a.sequences[i]? = some old)
    (hold : ∀ withdrawn, Core.progress cfg withdrawn a.serversLaunched old = (List.range (min hook cfg.beforeStopHooks)).map .beforeStop) :
  (a.beforeStopHook cfg i hook).Ordered cfg
  := by
  have hnext := hooks_next Event.beforeStop hook cfg.beforeStopHooks
  rw [App.beforeStopHook]
  split
  case isTrue hhook =>
    rw [if_pos hhook] at hnext
    apply h.goesOn hphase
    · intro event he
      rw [List.mem_singleton.mp he]
      rfl
    · intro withdrawn
      use withdrawn
      rw [hold, hnext]
      rfl
  case isFalse hhook =>
    rw [if_neg hhook, List.append_nil] at hnext
    apply h.setPhase hphase
    intro withdrawn
    use withdrawn
    rw [hold, hnext]
    rfl

/-- The next of the hooks after the stop is called, behind other events. -/
theorem Ordered.afterStopHook (h : a.Ordered cfg) {events : List Event} {hook : ℕ}
    (hphase : a.sequences[i]? = some old) (hevents : ∀ event ∈ events, event.isStop = true)
    (hold : ∀ withdrawn, Core.progress cfg withdrawn a.serversLaunched old ++ events = (List.range cfg.beforeStopHooks).map .beforeStop ++ withdrawal withdrawn ++ serverStops cfg a.serversLaunched ++ [.waited] ++ (List.range (min hook cfg.afterStopHooks)).map .afterStop) :
  ({ a with log := a.log ++ events }.afterStopHook cfg i hook).Ordered cfg
  := by
  have hnext := hooks_next Event.afterStop hook cfg.afterStopHooks
  rw [App.afterStopHook]
  split
  case isTrue hhook =>
    rw [if_pos hhook] at hnext
    have hlog : { a with log := a.log ++ events }.note (.afterStop hook) =
        { a with log := a.log ++ (events ++ [.afterStop hook]) } := by
      rw [App.note, List.append_assoc]
    rw [hlog]
    apply h.goesOn hphase
    · intro event he
      obtain he | he := List.mem_append.mp he
      · exact hevents event he
      · rw [List.mem_singleton.mp he]
        rfl
    · intro withdrawn
      use withdrawn
      rw [← List.append_assoc, hold, List.append_assoc, hnext]
      rfl
  case isFalse hhook =>
    rw [if_neg hhook, List.append_nil] at hnext
    apply h.goesOn hphase hevents
    intro withdrawn
    use withdrawn
    rw [hold, hnext]
    rfl

/-- The servers that were started are stopped. -/
theorem Ordered.stopServers (h : a.Ordered cfg) (hphase : a.sequences[i]? = some .stopping) :
  (a.stopServers cfg i).Ordered cfg
  := by
  have hcondition : (a.serversLaunched || !a.preparedServers.isEmpty) = a.serversLaunched := by
    cases hlaunched : a.serversLaunched with
    | true => rfl
    | false =>
        cases hprepared : a.preparedServers with
        | nil => rfl
        | cons server rest =>
            have hserver := h.prepared server (by rw [hprepared]; exact List.mem_cons_self)
            rw [hlaunched] at hserver
            cases hserver
  rw [App.stopServers, hcondition]
  split
  case isTrue hlaunched =>
    have hstopped : a.stoppedServers cfg = List.range cfg.servers := by
      rw [App.stoppedServers, hlaunched]
      exact List.filter_eq_self.mpr (fun _ _ => rfl)
    rw [hstopped]
    apply h.goesOn hphase
    · intro event he
      obtain ⟨server, -, rfl⟩ := List.mem_map.mp he
      rfl
    · intro withdrawn
      use withdrawn
      rw [hlaunched]
      rfl
  case isFalse hlaunched =>
    apply h.setPhase hphase
    intro withdrawn
    use withdrawn
    rw [Bool.eq_false_iff.mpr hlaunched]
    exact (List.append_nil _).symm

/-- The instance is withdrawn, or none is held. -/
theorem Ordered.withdraw (h : a.Ordered cfg)
    (hphase : a.sequences[i]? = some (.beforeHooks cfg.beforeStopHooks)) :
  (a.withdraw i).Ordered cfg
  := by
  have hall : ∀ withdrawn,
      Core.progress cfg withdrawn a.serversLaunched (.beforeHooks cfg.beforeStopHooks) =
        (List.range cfg.beforeStopHooks).map .beforeStop := by
    intro withdrawn
    rw [Core.progress, Nat.min_eq_right (Nat.le_succ _)]
  rw [App.withdraw]
  split
  · have hheld : Ordered cfg { a with registeredInstance := false } :=
      h.same ⟨rfl, rfl, rfl, rfl, rfl, fun _ => .inl⟩ rfl (fun hframe => hframe)
    refine hheld.setPhase hphase (fun withdrawn => ⟨withdrawn, ?_⟩)
    exact hall withdrawn
  · apply h.setPhase hphase
    intro withdrawn
    use false
    rw [hall]
    exact (List.append_nil _).symm

theorem Ordered.joinStartup (h : a.Ordered cfg) (hphase : a.sequences[i]? = some .cancelling)
    (hstack : .run ∈ a.stack → .run ∈ stack) :
  (a.joinStartup cfg i stack).Ordered cfg
  := by
  have hfirst : (a.beforeStopHook cfg i 0).Ordered cfg := by
    apply h.beforeStopHook hphase
    intro withdrawn
    rw [Nat.zero_min]
    rfl
  have hlength := (List.getElem?_eq_some_iff.mp hphase).1
  rw [App.joinStartup]
  split
  · have hjoining : (a.setPhase i .joining).Ordered cfg :=
      h.setPhase hphase (fun withdrawn => ⟨withdrawn, rfl⟩)
    exact hjoining.returnStop (List.getElem?_set_self hlength) hstack
  · split
    case isTrue hhooks =>
      have hnone : a.beforeStopHook cfg i 0 = a.setPhase i (.beforeHooks 0) := by
        rw [App.beforeStopHook, hhooks, if_neg (Nat.lt_irrefl 0)]
      rw [hnone] at hfirst ⊢
      exact hfirst.returnStop (List.getElem?_set_self hlength) hstack
    case isFalse => exact hfirst

/-! ### Steps -/

/-- `stop` is called where it may be called. -/
theorem Ordered.stopApp (h : a.Ordered cfg) (hadmits : a.AdmitsStop cfg) :
  a.stopApp.Ordered cfg
  := by
  cases hrequested : a.stopRequested with
  | true =>
      have hstop : a.stopApp = a := by
        rw [App.stopApp, requestStop, hrequested, if_pos rfl, if_pos (hadmits.again hrequested)]
      rw [hstop]
      exact h
  | false =>
      obtain ⟨hsequences, hpromise⟩ := h.unrequested hrequested
      have hstop : a.stopApp =
          { a with
            stopRequested := true
            sequences := [.cancelling]
            stack := .stop 0 :: a.stack
            log := a.log ++ [.requested] } := by
        rw [App.stopApp, requestStop, hrequested]
        simp only [App.note, hpromise, hsequences]
        rfl
      rw [hstop]
      constructor
      case requested => exact fun _ => rfl
      case unrequested => rintro ⟨⟩
      case once => exact Nat.le_refl 1
      case begun =>
        apply List.pairwise_append.mpr
        refine ⟨h.begun, List.pairwise_singleton _ _, ?_⟩
        rintro e he f hf -
        rw [List.mem_singleton.mp hf]
        rfl
      case registering => exact fun _ => hadmits.registering hrequested
      case launching => exact fun _ => hadmits.launching hrequested
      case frame => exact fun n hn => List.mem_cons_of_mem _ (h.frame n hn)
      case invoked =>
        rintro server (hmem | hmem)
        · obtain hmem | hmem := List.mem_append.mp hmem
          · exact h.invoked server (.inl hmem)
          · cases List.mem_singleton.mp hmem
        · obtain hmem | hmem := List.mem_append.mp hmem
          · exact h.invoked server (.inr hmem)
          · cases List.mem_singleton.mp hmem
      case prepared => exact h.prepared
      case launched => rintro ⟨⟩
      case started =>
        intro hlaunched server hserver
        obtain hs | hlaunching := h.started hlaunched server hserver
        · exact .inl (List.mem_append_left _ hs)
        · exact .inr hlaunching
      case progress =>
        obtain ⟨withdrawn, hprogress⟩ := h.progress
        use withdrawn
        rw [hsequences] at hprogress
        rw [stopEvents_concat_of_not _ rfl]
        exact hprogress

/-- A careful step keeps the order. -/
theorem Ordered.step (h : a.Ordered cfg) (hstep : CarefulStep cfg a a') :
  a'.Ordered cfg
  := by
  obtain ⟨hstep, hadmits⟩ := hstep
  have hleft : ∀ {s : Startup}, a.startup = s → s.isLaunching = false →
      a.startup.isLaunching = false := by
    rintro s hs hlaunching
    rw [hs]
    exact hlaunching
  have hpop : ∀ {i : ℕ} {stack : List Frame}, a.stack = .stop i :: stack →
      .run ∈ a.stack → .run ∈ stack := by
    intro i stack hstack hframe
    rw [hstack] at hframe
    apply (List.mem_cons.mp hframe).resolve_left
    rintro ⟨⟩
  cases hstep with
  | runs hstartup | installFails hstack hstartup | hookEnds hstack hstartup hended
  | hookFails hstack hstartup hended | launchedFails hstack hstartup hfailed
  | registerAbandoned hstack hstartup | afterHookFails hstack hstartup hended =>
      refine h.leaves ⟨rfl, rfl, rfl, rfl, rfl, fun _ => .inl⟩ (hleft hstartup rfl) rfl ?_
      rintro ⟨⟩
  | installed hstack hstartup => exact h.executeStart hstartup
  | firstHookReturns hstack hstartup =>
      refine h.leaves ⟨rfl, rfl, rfl, rfl, rfl, fun _ => .inl⟩ (hleft hstartup rfl) ?_ ?_
      · dsimp only
        rw [hstartup]
        rfl
      · dsimp only
        rw [hstartup]
        rintro ⟨⟩
  | launches hstack hstartup => exact h.launch hstartup
  | launchesNext hstack hstartup hstarted =>
      apply h.startsNext hstartup hstarted
      cases hrequested : a.stopRequested with
      | false => rfl
      | true => exact absurd hstarted (h.launching hrequested _ hstartup)
  | launchEnds hstack hstartup hstarted =>
      refine h.moves ⟨rfl, rfl, rfl, rfl, rfl, fun _ => .inl⟩ ?_ rfl ?_ ?_
      · intro n hn
        rw [hstartup] at hn
        obtain rfl := Startup.launching.inj hn
        exact hstarted
      · rintro _ ⟨⟩
      · rw [hstartup]
        exact fun _ _ => rfl
  | serverFails | registerSucceeds | registerFails | compensates | runEnds =>
      exact h.same ⟨rfl, rfl, rfl, rfl, rfl, fun _ => .inl⟩ rfl (fun hframe => hframe)
  | builds hstack hstartup hfailed => exact h.startBuilding hstartup
  | buildsNext hstack hstartup => exact h.buildNext hstartup
  | endpointResolves hstack hstartup =>
      refine h.moves ⟨rfl, rfl, rfl, rfl, rfl, fun _ => .inl⟩ ?_ rfl ?_ ?_
      · rw [hstartup]
        rintro _ ⟨⟩
      · rintro _ ⟨⟩
      · rw [hstartup]
        exact fun _ _ => rfl
  | buildFails hstack hstartup =>
      refine h.leaves ⟨rfl, rfl, rfl, rfl, rfl, fun _ => .inl⟩ ?_ rfl ?_
      · cases hs : a.startup with
        | launching n =>
            rw [hs] at hstartup
            cases hstartup
        | _ => rfl
      · rintro ⟨⟩
  | registers hstack hstartup => exact h.register hstartup
  | registerCalled hstack hstartup =>
      have hrequested : a.stopRequested = false := by
        cases hstop : a.stopRequested with
        | false => rfl
        | true => exact absurd hstartup (h.registering hstop)
      have hwaits : Ordered cfg { a with startup := .registerWait, registration := .pending } := by
        refine h.leaves ⟨rfl, rfl, rfl, rfl, rfl, fun _ => .inl⟩ (hleft hstartup rfl) rfl ?_
        rintro ⟨⟩
      apply hwaits.note
      · rintro ⟨⟩
      · exact fun _ => hrequested
      · rintro server (heq | heq)
        · cases heq
        · cases heq
      · rfl
  | registered hstack hstartup hregistration => exact h.registered hstartup
  | compensated hstack hcompensation =>
      have hcalled : Ordered cfg { a with compensation := .called } :=
        h.same ⟨rfl, rfl, rfl, rfl, rfl, fun _ => .inl⟩ rfl (fun hframe => hframe)
      apply hcalled.note
      · rintro ⟨⟩
      · rintro ⟨⟩
      · rintro server (heq | heq)
        · cases heq
        · cases heq
      · rfl
  | afterHookEnds hstack hstartup =>
      refine h.leaves ⟨rfl, rfl, rfl, rfl, rfl, fun _ => .inl⟩ (hleft hstartup rfl) ?_ ?_
      · dsimp only
        split
        · rfl
        · rfl
      · dsimp only
        split
        · rintro ⟨⟩
        · rintro ⟨⟩
  | stops => exact h.stopApp (hadmits .stops)
  | cancelled hstack hphase => exact h.joinStartup hphase (hpop hstack)
  | firstStopHookReturns hstack hphase => exact h.returnStop hphase (hpop hstack)
  | joins hstack hphase hstartup =>
      apply h.beforeStopHook hphase
      intro withdrawn
      rw [Nat.zero_min]
      rfl
  | abandons hstack hphase htimeout =>
      have hgiven : Ordered cfg { a with startupAbandoned := true } :=
        h.same ⟨rfl, rfl, rfl, rfl, rfl, fun _ => .inl⟩ rfl (fun hframe => hframe)
      apply hgiven.beforeStopHook hphase
      intro withdrawn
      rw [Nat.zero_min]
      rfl
  | stopHookEnds hstack hphase hended =>
      apply h.beforeStopHook hphase
      exact fun _ => rfl
  | withdraws hstack hphase => exact h.withdraw hphase
  | deregisterCalled hstack hphase =>
      apply h.goesOn hphase
      · intro event he
        rw [List.mem_singleton.mp he]
        rfl
      · intro withdrawn
        use true
        rfl
  | deregisterEnds hstack hphase | stopWaitEnds hstack hphase =>
      exact h.setPhase hphase (fun withdrawn => ⟨withdrawn, rfl⟩)
  | stopsServers hstack hphase => exact h.stopServers hphase
  | serversSettle hstack hphase =>
      apply h.afterStopHook hphase
      · intro event he
        rw [List.mem_singleton.mp he]
        rfl
      · intro withdrawn
        rw [Nat.zero_min]
        exact (List.append_nil _).symm
  | afterStopHookEnds hstack hphase hended =>
      have hlog : a = { a with log := a.log ++ [] } := by rw [List.append_nil]
      rw [hlog]
      apply h.afterStopHook hphase
      · exact fun _ he => absurd he List.not_mem_nil
      · intro withdrawn
        apply List.append_nil
  | stopEnds hstack hphase =>
      apply h.setPhase hphase
      intro withdrawn
      use withdrawn
      rw [Core.progress, Nat.min_eq_right (Nat.le_succ _)]
      rfl
  | raceEnds hstack hrun hrace =>
      have hstopping : Ordered cfg { a with run := .stopping } :=
        h.same ⟨rfl, rfl, rfl, rfl, rfl, fun _ => .inl⟩ rfl (fun hframe => hframe)
      obtain ⟨hagain, hregistering, hlaunching⟩ := hadmits .raceEnds
      exact hstopping.stopApp ⟨hagain, hregistering, hlaunching⟩

theorem Ordered.run (hrun : Relation.ReflTransGen (CarefulStep cfg) newApp a) :
  a.Ordered cfg
  := by
  induction hrun with
  | refl => exact ordered_newApp
  | tail _ hstep ih => exact ih.step hstep

/-! ### An instance that is held -/

/-- An instance is held or has been withdrawn. -/
def Held (a : App) : Prop :=
  a.registeredInstance = true ∨ .deregistering ∈ a.sequences ∨ .deregisters true ∈ a.log

/-- What is held, and what has been withdrawn, is kept. -/
structure Retains (a a' : App) : Prop where
  registeredInstance : a.registeredInstance = true → a'.registeredInstance = true
  sequences : .deregistering ∈ a.sequences → .deregistering ∈ a'.sequences
  log : .deregisters true ∈ a.log → .deregisters true ∈ a'.log

theorem Held.retain (h : a.Held) (hretains : a.Retains a') :
  a'.Held
  := by
  obtain hinstance | hsequences | hlog := h
  · exact .inl (hretains.registeredInstance hinstance)
  · exact .inr (.inl (hretains.sequences hsequences))
  · exact .inr (.inr (hretains.log hlog))

theorem Retains.trans {a'' : App} (h : a.Retains a') (h' : a'.Retains a'') :
  a.Retains a''
  := by
  constructor
  case registeredInstance => exact fun hi => h'.registeredInstance (h.registeredInstance hi)
  case sequences => exact fun hs => h'.sequences (h.sequences hs)
  case log => exact fun hl => h'.log (h.log hl)

theorem retains_of_eq (hinstance : a'.registeredInstance = a.registeredInstance)
    (hsequences : a'.sequences = a.sequences) (hlog : a'.log = a.log) :
  a.Retains a'
  := by
  constructor
  case registeredInstance =>
    rw [hinstance]
    exact fun hi => hi
  case sequences =>
    rw [hsequences]
    exact fun hs => hs
  case log =>
    rw [hlog]
    exact fun hl => hl

theorem retains_rfl (a : App) :
  a.Retains a
  := retains_of_eq rfl rfl rfl

theorem retains_note (a : App) (event : Event) :
  a.Retains (a.note event)
  := by
  constructor
  case registeredInstance => exact fun hi => hi
  case sequences => exact fun hs => hs
  case log => exact List.mem_append_left _

theorem retains_setPhase (hphase : a.sequences[i]? = some old) (hold : old ≠ .deregistering)
    (new : StopPhase) :
  a.Retains (a.setPhase i new)
  := by
  constructor
  case registeredInstance => exact fun hi => hi
  case sequences => exact fun hs => mem_set_of_ne hphase hs hold.symm
  case log => exact fun hl => hl

theorem Retains.setPhase (h : a.Retains a') (hphase : a'.sequences[i]? = some old)
    (hold : old ≠ .deregistering) :
  a.Retains (a'.setPhase i new)
  := h.trans (retains_setPhase hphase hold new)

theorem retains_startAfterHooks (a : App) :
  a.Retains a.startAfterHooks
  := retains_of_eq rfl rfl rfl

theorem retains_executeStart (a : App) (stack : List Frame) :
  a.Retains (a.executeStart cfg stack)
  := by
  rw [App.executeStart]
  split
  · exact retains_of_eq rfl rfl rfl
  · split
    · exact retains_of_eq rfl rfl rfl
    · exact retains_of_eq rfl rfl rfl

theorem retains_launch (a : App) :
  a.Retains (a.launch cfg)
  := by
  rw [App.launch]
  split
  · exact retains_of_eq rfl rfl rfl
  · split
    · exact retains_of_eq rfl rfl rfl
    · apply Retains.trans _ (retains_note _ _)
      exact retains_of_eq rfl rfl rfl

theorem retains_buildNext (a : App) (visited : ℕ) :
  a.Retains (a.buildNext cfg visited)
  := by
  rw [App.buildNext]
  split
  · exact retains_of_eq rfl rfl rfl
  · split
    · apply Retains.trans _ (retains_note _ _)
      exact retains_of_eq rfl rfl rfl
    · exact retains_of_eq rfl rfl rfl

theorem retains_startBuilding (a : App) :
  a.Retains (a.startBuilding cfg)
  := by
  rw [App.startBuilding]
  split
  · exact retains_of_eq rfl rfl rfl
  · apply retains_startAfterHooks

theorem retains_register (a : App) :
  a.Retains a.register
  := by
  rw [App.register]
  split
  · apply retains_startAfterHooks
  · exact retains_of_eq rfl rfl rfl

theorem retains_registered (a : App) :
  a.Retains a.registered
  := by
  apply Retains.trans _ (retains_startAfterHooks _)
  split
  · exact retains_of_eq rfl rfl rfl
  · exact ⟨fun _ => rfl, fun hs => hs, fun hl => hl⟩

theorem Retains.beforeStopHook (h : a.Retains a') (hphase : a'.sequences[i]? = some old)
    (hold : old ≠ .deregistering) (hook : ℕ) :
  a.Retains (a'.beforeStopHook cfg i hook)
  := by
  rw [App.beforeStopHook]
  split
  · exact (h.trans (retains_note _ _)).setPhase hphase hold
  · exact h.setPhase hphase hold

theorem Retains.afterStopHook (h : a.Retains a') (hphase : a'.sequences[i]? = some old)
    (hold : old ≠ .deregistering) (hook : ℕ) :
  a.Retains (a'.afterStopHook cfg i hook)
  := by
  rw [App.afterStopHook]
  split
  · exact (h.trans (retains_note _ _)).setPhase hphase hold
  · exact h.setPhase hphase hold

theorem retains_joinStartup (hphase : a.sequences[i]? = some .cancelling) (stack : List Frame) :
  a.Retains (a.joinStartup cfg i stack)
  := by
  have hne : StopPhase.cancelling ≠ .deregistering := by
    rintro ⟨⟩
  rw [App.joinStartup]
  split
  · exact (retains_setPhase hphase hne _).trans (retains_of_eq rfl rfl rfl)
  · split
    · exact ((retains_rfl a).beforeStopHook hphase hne 0).trans (retains_of_eq rfl rfl rfl)
    · exact (retains_rfl a).beforeStopHook hphase hne 0

theorem retains_stopServers (hphase : a.sequences[i]? = some .stopping) :
  a.Retains (a.stopServers cfg i)
  := by
  have hne : StopPhase.stopping ≠ .deregistering := by
    rintro ⟨⟩
  rw [App.stopServers]
  split
  · have hlog : a.Retains { a with log := a.log ++ (a.stoppedServers cfg).map .stops } :=
      ⟨fun hi => hi, fun hs => hs, List.mem_append_left _⟩
    exact hlog.setPhase hphase hne
  · exact retains_setPhase hphase hne _

theorem retains_stopApp (a : App) :
  a.Retains a.stopApp
  := by
  have hrequest : a.Retains a.requestStop := by
    rw [requestStop]
    split
    · exact retains_of_eq rfl rfl rfl
    · apply Retains.trans _ (retains_note _ _)
      exact retains_of_eq rfl rfl rfl
  rw [App.stopApp]
  split
  · exact hrequest
  · apply hrequest.trans
    exact ⟨fun hi => hi, List.mem_append_left _, fun hl => hl⟩

/-- A step keeps an instance held, or withdraws it. -/
theorem Held.step (h : a.Held) (hstep : AppStep cfg a a') :
  a'.Held
  := by
  cases hstep with
  | runs | installFails | firstHookReturns | hookEnds | hookFails | launchEnds | serverFails
  | launchedFails | endpointResolves | buildFails | registerSucceeds | registerFails
  | registerAbandoned | compensates | afterHookEnds | afterHookFails | firstStopHookReturns
  | runEnds => exact h.retain (retains_of_eq rfl rfl rfl)
  | installed hstack hstartup => exact h.retain (retains_executeStart a _)
  | launches hstack hstartup => exact h.retain (retains_launch a)
  | launchesNext | registerCalled | compensated =>
      apply h.retain
      apply Retains.trans _ (retains_note _ _)
      exact retains_of_eq rfl rfl rfl
  | builds hstack hstartup hfailed => exact h.retain (retains_startBuilding a)
  | buildsNext hstack hstartup => exact h.retain (retains_buildNext a _)
  | registers hstack hstartup => exact h.retain (retains_register a)
  | registered hstack hstartup hregistration => exact h.retain (retains_registered a)
  | stops => exact h.retain (retains_stopApp a)
  | cancelled hstack hphase => exact h.retain (retains_joinStartup hphase _)
  | joins hstack hphase hstartup | stopHookEnds hstack hphase hended =>
      apply h.retain
      apply (retains_rfl a).beforeStopHook hphase
      rintro ⟨⟩
  | abandons hstack hphase htimeout =>
      have hgiven : a.Retains { a with startupAbandoned := true } := retains_of_eq rfl rfl rfl
      refine h.retain (hgiven.beforeStopHook hphase ?_ 0)
      rintro ⟨⟩
  | withdraws hstack hphase =>
      rw [App.withdraw]
      split
      · exact .inr (.inl (List.mem_set (List.getElem?_eq_some_iff.mp hphase).1 _))
      · apply h.retain
        apply retains_setPhase hphase
        rintro ⟨⟩
  | deregisterCalled hstack hphase =>
      exact .inr (.inr (List.mem_append_right _ List.mem_cons_self))
  | deregisterEnds hstack hphase | stopWaitEnds hstack hphase | stopEnds hstack hphase =>
      apply h.retain
      apply retains_setPhase hphase
      rintro ⟨⟩
  | stopsServers hstack hphase => exact h.retain (retains_stopServers hphase)
  | serversSettle hstack hphase =>
      refine h.retain ((retains_note a .waited).afterStopHook hphase ?_ 0)
      rintro ⟨⟩
  | afterStopHookEnds hstack hphase hended =>
      apply h.retain
      apply (retains_rfl a).afterStopHook hphase
      rintro ⟨⟩
  | raceEnds hstack hrun hrace =>
      apply h.retain
      apply Retains.trans _ (retains_stopApp _)
      exact retains_of_eq rfl rfl rfl

theorem Held.run (h : a.Held) (hrun : Relation.ReflTransGen (AppStep cfg) a a') :
  a'.Held
  := by
  induction hrun with
  | refl => exact h
  | tail _ hstep ih => exact ih.step hstep

/-- The lifecycle is in order. -/
structure Orderly (cfg : AppConfig) (a : App) : Prop where
  once : a.sequences.length ≤ 1
  /-- Nothing is begun behind the request to stop. -/
  begun : a.log.Pairwise (fun e f => e = .requested → f.isBegun = false)
  /-- What the stop sequence does is the beginning of a shutdown, and all of it in the end. -/
  shutdown : ∃ withdrawn, stopEvents a.log <+: shutdown cfg withdrawn a.serversLaunched ∧
    (.ended ∈ a.sequences → stopEvents a.log = shutdown cfg withdrawn a.serversLaunched)
  stopped : ∀ server, .stops server ∈ a.log → .starts server ∈ a.log
  stoppedOnce : ∀ server, a.log.count (.stops server) ≤ 1
  invoked : .ended ∈ a.sequences → ∀ server, .starts server ∈ a.log ∨ .endpoint server ∈ a.log →
    a.log.count (.stops server) = 1

/-- The events of a stop sequence are counted in the log. -/
theorem count_stopEvents (log : List Event) {event : Event} (h : event.isStop = true) :
  (stopEvents log).count event = log.count event
  := List.count_filter h

/-- A shutdown stops every server that was started once. -/
theorem count_shutdown (withdrawn launched : Bool) (server : ℕ) :
  (Core.shutdown cfg withdrawn launched).count (.stops server) =
    if launched = true ∧ server < cfg.servers then 1 else 0
  := by
  have hbefore : ((List.range cfg.beforeStopHooks).map Event.beforeStop).count (.stops server) = 0 := by
    apply List.count_eq_zero_of_not_mem
    intro hmem
    obtain ⟨_, -, heq⟩ := List.mem_map.mp hmem
    cases heq
  have hafter : ((List.range cfg.afterStopHooks).map Event.afterStop).count (.stops server) = 0 := by
    apply List.count_eq_zero_of_not_mem
    intro hmem
    obtain ⟨_, -, heq⟩ := List.mem_map.mp hmem
    cases heq
  have hwithdrawal : (withdrawal withdrawn).count (.stops server) = 0 := by
    cases withdrawn with
    | false | true => rfl
  have hstops : (serverStops cfg launched).count (.stops server) =
      if launched = true ∧ server < cfg.servers then 1 else 0 := by
    have hinjective : Function.Injective Event.stops := fun _ _ heq => Event.stops.inj heq
    rw [serverStops]
    cases launched with
    | false => rfl
    | true =>
        rw [if_pos rfl, List.count_map_of_injective _ _ hinjective, List.count_range]
        simp
  rw [Core.shutdown, List.count_append, List.count_append, List.count_append, List.count_append,
    hbefore, hwithdrawal, hstops, hafter]
  simp

theorem Ordered.begins (h : a.Ordered cfg) :
  ∃ withdrawn, stopEvents a.log <+: Core.shutdown cfg withdrawn a.serversLaunched
  := by
  obtain ⟨withdrawn, hprogress⟩ := h.progress
  use withdrawn
  rw [hprogress]
  cases a.sequences.head? with
  | none => apply List.nil_prefix
  | some phase => apply progress_begins

/-- A server is stopped once at most, and only if it has been started. -/
theorem Ordered.stopped (h : a.Ordered cfg) (server : ℕ) :
  a.log.count (.stops server) ≤ 1 ∧ (.stops server ∈ a.log → .starts server ∈ a.log)
  := by
  obtain ⟨withdrawn, hbegins⟩ := h.begins
  have hcount : a.log.count (.stops server) ≤
      if a.serversLaunched = true ∧ server < cfg.servers then 1 else 0 := by
    rw [← count_stopEvents a.log rfl, ← count_shutdown withdrawn]
    exact hbegins.sublist.count_le _
  constructor
  · apply hcount.trans
    split
    · exact Nat.le_refl 1
    · exact Nat.zero_le 1
  · intro hstops
    have hpositive := (List.count_pos_iff.mpr hstops).trans_le hcount
    split at hpositive
    case isTrue hserver =>
      obtain hs | ⟨started, hle, hlaunching⟩ := h.started hserver.1 server hserver.2
      · exact hs
      · have hrequested : a.stopRequested = true := by
          cases hstop : a.stopRequested with
          | true => rfl
          | false =>
              obtain ⟨hsequences, -⟩ := h.unrequested hstop
              obtain ⟨_, hprogress⟩ := h.progress
              have hmem : .stops server ∈ stopEvents a.log := List.mem_filter.mpr ⟨hstops, rfl⟩
              rw [hprogress, hsequences] at hmem
              cases hmem
        exact absurd (Nat.lt_of_le_of_lt hle hserver.2) (h.launching hrequested started hlaunching)
    case isFalse => exact absurd hpositive (Nat.lt_irrefl 0)

theorem Ordered.orderly (h : a.Ordered cfg) :
  a.Orderly cfg
  := by
  have hended : .ended ∈ a.sequences →
      ∃ withdrawn, stopEvents a.log = Core.shutdown cfg withdrawn a.serversLaunched := by
    intro hmem
    obtain ⟨i, hphase⟩ := List.mem_iff_getElem?.mp hmem
    obtain ⟨-, -, hsequences⟩ := h.only hphase
    obtain ⟨withdrawn, hprogress⟩ := h.progress
    rw [hsequences] at hprogress
    exact ⟨withdrawn, hprogress⟩
  constructor
  case once => exact h.once
  case begun => exact h.begun
  case shutdown =>
    by_cases hmem : .ended ∈ a.sequences
    · obtain ⟨withdrawn, hall⟩ := hended hmem
      use withdrawn
      rw [hall]
      exact ⟨List.prefix_rfl, fun _ => rfl⟩
    · obtain ⟨withdrawn, hbegins⟩ := h.begins
      exact ⟨withdrawn, hbegins, fun hends => absurd hends hmem⟩
  case stopped => exact fun server => (h.stopped server).2
  case stoppedOnce => exact fun server => (h.stopped server).1
  case invoked =>
    intro hmem server hinvoked
    obtain ⟨withdrawn, hall⟩ := hended hmem
    rw [← count_stopEvents a.log rfl, hall, count_shutdown, if_pos (h.invoked server hinvoked)]

/-- Servers are stopped behind the withdrawal. -/
theorem isWithdrawn_of_stops {withdrawn launched : Bool} {server : ℕ}
    (h : .stops server ∈ Core.progress cfg withdrawn launched phase) :
  phase.isWithdrawn = true ∧ phase ≠ .deregistering
  := by
  have hhooks : ∀ n, .stops server ∉ (List.range n).map Event.beforeStop := by
    intro n hmem
    obtain ⟨_, -, heq⟩ := List.mem_map.mp hmem
    cases heq
  cases phase with
  | cancelling | joining => cases h
  | beforeHooks | deregistering => exact absurd h (hhooks _)
  | _ =>
      constructor
      · rfl
      · rintro ⟨⟩

/-- When a server is stopped, an instance that was held has been withdrawn. -/
theorem Ordered.withdrawn (h : a.Ordered cfg) (haccounted : a.Accounted) (hheld : a.Held)
    {server : ℕ} (hstops : .stops server ∈ a.log) :
  .deregisters true ∈ a.log
  := by
  have hmem : .stops server ∈ stopEvents a.log := List.mem_filter.mpr ⟨hstops, rfl⟩
  obtain ⟨withdrawn, hprogress⟩ := h.progress
  cases hsequences : a.sequences with
  | nil =>
      rw [hprogress, hsequences] at hmem
      cases hmem
  | cons phase rest =>
      rw [hprogress, hsequences] at hmem
      obtain ⟨hdone, hne⟩ := isWithdrawn_of_stops hmem
      have hphase : a.sequences[0]? = some phase := by
        rw [hsequences]
        rfl
      obtain ⟨-, -, honly⟩ := h.only hphase
      obtain hinstance | hderegistering | hlog := hheld
      · rw [haccounted.withdrawn phase (List.mem_of_getElem? hphase) hdone] at hinstance
        cases hinstance
      · rw [honly] at hderegistering
        exact absurd (List.mem_singleton.mp hderegistering).symm hne
      · exact hlog

end App

/-- In every careful run: the stop sequence is executed once, nothing is begun behind the request
to stop, the servers that were started are stopped once and no others, in the order of a shutdown,
and no server is stopped before an instance that has been held is withdrawn. -/
theorem app_orderly {a b : App} (hbefore : Relation.ReflTransGen (CarefulStep cfg) newApp a)
    (hafter : Relation.ReflTransGen (CarefulStep cfg) a b) :
  b.Orderly cfg ∧ (a.registeredInstance = true →
    ∀ server, .stops server ∈ b.log → .deregisters true ∈ b.log)
  := by
  have h := App.Ordered.run (hbefore.trans hafter)
  refine ⟨h.orderly, fun hinstance server hstops => ?_⟩
  have hsteps : ∀ {a b : App}, Relation.ReflTransGen (CarefulStep cfg) a b →
      Relation.ReflTransGen (AppStep cfg) a b :=
    fun hrun => Relation.ReflTransGen.mono (fun _ _ hstep => hstep.1) _ _ hrun
  have hheld : b.Held := App.Held.run (.inl hinstance) (hsteps hafter)
  exact h.withdrawn (.run (hsteps (hbefore.trans hafter))) hheld hstops

/-- An application with two servers that does not register. -/
def twoServers : AppConfig := ⟨2, fun _ => false, true, false, false, 0, 0, 0, 0⟩

/-- The start of the first server requests a stop, and the second server is started after it. A
listener of the context requests a stop while the context is canceled, and there are two stop
sequences. -/
theorem app_disorderly :
  (∃ a : App, Relation.ReflTransGen (AppStep twoServers) newApp a ∧
    a.log = [.starts 0, .requested, .starts 1] ∧ ¬ a.Orderly twoServers) ∧
  ∃ a : App, Relation.ReflTransGen (AppStep twoServers) newApp a ∧
    a.sequences.length = 2 ∧ ¬ a.Orderly twoServers
  := by
  constructor
  · let begun : App := ⟨true, some 0, [.joining], .launching 2, true, false, true, [], false, .uncalled,
      .none, false, .racing, [.run], [.starts 0, .requested, .starts 1]⟩
    have hrun : Relation.ReflTransGen (AppStep twoServers) newApp begun :=
      .tail (.tail (.tail (.tail (.tail (.tail .refl (.runs rfl)) (.installed rfl rfl))
        (.launches rfl rfl)) .stops) (.cancelled rfl rfl)) (.launchesNext rfl rfl (by decide))
    refine ⟨begun, hrun, rfl, fun horderly => ?_⟩
    have hbegun := (List.pairwise_cons.mp (List.pairwise_cons.mp horderly.begun).2).1
    cases hbegun _ List.mem_cons_self rfl
  · let twice : App := ⟨true, none, [.cancelling, .cancelling], .idle, false, false, false, [], false,
      .uncalled, .none, false, .idle, [.stop 1, .stop 0], [.requested]⟩
    have hrun : Relation.ReflTransGen (AppStep twoServers) newApp twice :=
      .tail (.tail .refl .stops) .stops
    refine ⟨twice, hrun, rfl, fun horderly => ?_⟩
    exact absurd horderly.once (by decide)

/-- An application with a server that registers. -/
def registeringServer : AppConfig := ⟨1, fun _ => false, true, true, false, 0, 0, 0, 0⟩

/-- The application registers, and is stopped. -/
theorem app_orderly_stopped :
  ∃ a : App, a.Orderly registeringServer ∧ a.Stopped ∧
    a.log = [.starts 0, .registers, .requested, .deregisters true, .stops 0, .waited] ∧
    .deregisters true ∈ a.log
  := by
  let registered : App := ⟨false, none, [], .afterHooks 0, true, false, true, [], true, .succeeded,
    .none, false, .racing, [], [.starts 0, .registers]⟩
  have hregistered : Relation.ReflTransGen (CarefulStep registeringServer) newApp registered :=
    .tail (.tail (.tail (.tail (.tail (.tail (.tail (.tail (.tail .refl
      (careful_of_length (.runs rfl) rfl rfl))
      (careful_of_length (.installed rfl rfl) rfl rfl))
      (careful_of_length (.launches rfl rfl) rfl rfl))
      (careful_of_length (.launchEnds rfl rfl (by decide)) rfl rfl))
      (careful_of_length (.builds rfl rfl rfl) rfl rfl))
      (careful_of_length (.registers rfl rfl) rfl rfl))
      (careful_of_length (.registerCalled rfl rfl) rfl rfl))
      (careful_of_length (.registerSucceeds rfl) rfl rfl))
      (careful_of_length (.registered rfl rfl rfl) rfl rfl)
  let requested : App := ⟨true, none, [.cancelling], .afterHooks 0, true, false, true, [], true,
    .succeeded, .none, false, .racing, [.stop 0], [.starts 0, .registers, .requested]⟩
  have hadmits : registered.AdmitsStop registeringServer := by
    constructor
    · rintro ⟨⟩
    · rintro - ⟨⟩
    · rintro - _ ⟨⟩
  have hrequested : CarefulStep registeringServer registered requested := ⟨.stops, fun _ => hadmits⟩
  let stopped : App := ⟨true, some 0, [.ended], .settled true, true, false, true, [], false, .succeeded,
    .none, false, .racing, [],
    [.starts 0, .registers, .requested, .deregisters true, .stops 0, .waited]⟩
  have hstopped : Relation.ReflTransGen (CarefulStep registeringServer) requested stopped :=
    .tail (.tail (.tail (.tail (.tail (.tail (.tail (.tail (.tail (.tail .refl
      (careful_of_length (.cancelled rfl rfl) rfl rfl))
      (careful_of_promise (.afterHookEnds rfl rfl) rfl rfl))
      (careful_of_promise (.joins (i := 0) rfl rfl rfl) rfl rfl))
      (careful_of_promise (.withdraws (i := 0) rfl rfl) rfl rfl))
      (careful_of_promise (.deregisterCalled (i := 0) rfl rfl) rfl rfl))
      (careful_of_promise (.deregisterEnds (i := 0) rfl rfl) rfl rfl))
      (careful_of_promise (.stopsServers (i := 0) rfl rfl) rfl rfl))
      (careful_of_promise (.stopWaitEnds (i := 0) rfl rfl) rfl rfl))
      (careful_of_promise (.serversSettle (i := 0) rfl rfl) rfl rfl))
      (careful_of_promise (.stopEnds (i := 0) rfl rfl) rfl rfl)
  obtain ⟨horderly, hwithdrawn⟩ := app_orderly hregistered (.head hrequested hstopped)
  have hstops : .stops 0 ∈ stopped.log := by
    decide
  exact ⟨stopped, horderly, List.mem_cons_self, rfl, hwithdrawn rfl 0 hstops⟩

end Core
