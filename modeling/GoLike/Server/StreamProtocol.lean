import GoLike.Server.Stream

/-!
# What a server stream sends

The chunks of a stream are an opening comment, then the events of the values in the order in which
they were yielded, with comments between them, and at the end one terminal event at most. The
iterator is called again only when it has answered, and it is asked to clean up once at most, behind
the end of its context.
-/

open Transport.Sse

namespace Server

variable {V : Type} {cfg : StreamConfig V}

/-! ### Chunks and answers -/

/-- The chunk is an end event or an error event. -/
def Chunk.isTerminal : Chunk → Bool
  | .ended => true
  | .failed _ => true
  | _ => false

/-- The bytes of a message. -/
def Chunk.messageOf : Chunk → Option Bytes
  | .message bytes => some bytes
  | _ => none

/-- The messages among the chunks. -/
def messages (chunks : List Chunk) : List Bytes := chunks.filterMap Chunk.messageOf

/-- The value that is yielded. -/
def Answer.value : Answer V → Option V
  | .yields value => some value
  | _ => none

/-- The values that the iterator has yielded. -/
def yielded (calls : List (Option (Answer V))) : List V :=
  calls.filterMap (fun answer => answer.bind Answer.value)

theorem messages_append (chunks chunks' : List Chunk) :
  messages (chunks ++ chunks') = messages chunks ++ messages chunks'
  := List.filterMap_append

theorem yielded_append (calls calls' : List (Option (Answer V))) :
  yielded (calls ++ calls') = yielded calls ++ yielded calls'
  := List.filterMap_append

/-- The wait of a phase is for a call of `next`. -/
def Phase.call : Phase → Option ℕ
  | .racing call => some call
  | .woken call _ => some call
  | .taking call => some call
  | _ => none

/-- A pull is under way, and has not sent anything. -/
def Phase.isActive : Phase → Bool
  | .idle => false
  | .tasks _ => false
  | _ => true

theorem Phase.isActive_of_call {phase : Phase} {n : ℕ} (h : phase.call = some n) :
  phase.isActive = true ∧ phase ≠ .calling
  := by
  cases phase with
  | idle | calling | rejected | tasks => cases h
  | _ =>
      constructor
      · rfl
      · rintro ⟨⟩

namespace ServerStream

variable {s s' : ServerStream V}

/-! ### What is sent -/

/-- Why an error event is sent. -/
inductive Failure (cfg : StreamConfig V) (s : ServerStream V) : ServiceError → Prop where
  | deadline (herr : s.err = some .deadlineExceeded) : Failure cfg s deadlineServiceError
  | thrown {thrown : Option ServiceError}
      (hlast : s.calls.getLast? = some (some (.throws thrown))) :
      Failure cfg s (asServiceError thrown)
  | encoding {value : V} (hlast : s.calls.getLast? = some (some (.yields value)))
      (hencode : cfg.encode value = none) : Failure cfg s internalServiceError
  | limit {value : V} {bytes : Bytes} (hlast : s.calls.getLast? = some (some (.yields value)))
      (hencode : cfg.encode value = some bytes) (hlimit : cfg.maxSendBytes < bytes.length) :
      Failure cfg s (sendLimitError bytes.length cfg.maxSendBytes)

/-- What a stream has sent and what it has called. -/
structure Sound (cfg : StreamConfig V) (s : ServerStream V) : Prop where
  opening : s.chunks.head? = some .comment
  /-- Nothing is sent behind a terminal event. -/
  terminal : ∀ chunk ∈ s.chunks.dropLast, chunk.isTerminal = false
  messages : ∃ values, values <+: yielded s.calls ∧
    (messages s.chunks).map some = values.map cfg.encode ∧
    (.ended ∈ s.chunks → values = yielded s.calls)
  ended : .ended ∈ s.chunks → s.calls.getLast? = some (some .finishes)
  failed : ∀ error, .failed error ∈ s.chunks → s.Failure cfg error
  limit : ∀ bytes, .message bytes ∈ s.chunks → bytes.length ≤ cfg.maxSendBytes
  /-- `next` is not called while an earlier call of it is not answered. -/
  calls : ∀ answer ∈ s.calls.dropLast, answer.isSome = true
  returns : s.returns.length ≤ 1
  /-- `return` is called when the context has ended. -/
  returned : ∀ err ∈ s.returns, err.isSome = true

/-- A terminal event has been sent. -/
def Ended (s : ServerStream V) : Prop := ∃ chunk ∈ s.chunks, chunk.isTerminal = true

/-- The number of calls of `next` whose answers have been taken. -/
def taken (s : ServerStream V) : ℕ :=
  if s.phase = .calling then s.calls.length - 1 else s.pending.getD s.calls.length

/-- What holds of the phase of a pull. -/
structure Phased (cfg : StreamConfig V) (s : ServerStream V) : Prop where
  ended : s.Ended → (s.finished = true ∧ s.phase = .idle) ∨
    ∃ rest, s.phase = .tasks rest ∧ (s.finished = true ∨ .finish ∈ rest)
  isOpen : s.finished = true → s.isOpen = true → s.phase = .idle ∨ ∃ rest, s.phase = .tasks rest
  pending : ∀ n, s.pending = some n → n + 1 = s.calls.length
  waits : s.finished = false → ∀ n, s.phase.call = some n → s.pending = some n
  calling : s.phase = .calling → s.calls.getLast? = some none
  answered : s.finished = false → s.pending = none → s.phase ≠ .calling →
    ∀ answer ∈ s.calls, answer.isSome = true
  taken : s.finished = false → ¬ s.Ended →
    (messages s.chunks).map some = (yielded (s.calls.take s.taken)).map cfg.encode
  rejected : s.finished = false → ∀ thrown, s.phase = .rejected thrown →
    s.calls.getLast? = some (some (.throws thrown))
  returns : s.finished = false → s.returns = []

theorem sound_newServerStream :
  (newServerStream V).Sound cfg
  := by
  constructor
  case opening => rfl
  case terminal => exact fun _ h => absurd h List.not_mem_nil
  case messages => exact ⟨[], List.nil_prefix, rfl, fun _ => rfl⟩
  case ended =>
    intro h
    cases List.mem_singleton.mp h
  case failed =>
    intro _ h
    cases List.mem_singleton.mp h
  case limit =>
    intro _ h
    cases List.mem_singleton.mp h
  case calls => exact fun _ h => absurd h List.not_mem_nil
  case returns => exact Nat.zero_le 1
  case returned => exact fun _ h => absurd h List.not_mem_nil

theorem phased_newServerStream :
  (newServerStream V).Phased cfg
  := by
  constructor
  case ended =>
    rintro ⟨chunk, hchunk, hterminal⟩
    rw [List.mem_singleton.mp hchunk] at hterminal
    cases hterminal
  case isOpen => rintro ⟨⟩
  case pending => rintro _ ⟨⟩
  case waits => rintro - _ ⟨⟩
  case calling => rintro ⟨⟩
  case answered => exact fun _ _ _ _ h => absurd h List.not_mem_nil
  case taken => exact fun _ _ => rfl
  case rejected => rintro - _ ⟨⟩
  case returns => exact fun _ => rfl

/-! ### Changes that are not sent -/

/-- Only what is sent and called counts, and whether the deadline has passed. -/
theorem Sound.congr (h : s.Sound cfg) (hchunks : s'.chunks = s.chunks) (hcalls : s'.calls = s.calls)
    (hreturns : s'.returns = s.returns)
    (herr : s.err = some .deadlineExceeded → s'.err = some .deadlineExceeded) :
  s'.Sound cfg
  := by
  constructor
  case opening =>
    rw [hchunks]
    exact h.opening
  case terminal =>
    rw [hchunks]
    exact h.terminal
  case messages =>
    rw [hchunks, hcalls]
    exact h.messages
  case ended =>
    rw [hchunks, hcalls]
    exact h.ended
  case failed =>
    rw [hchunks]
    intro error hmem
    cases h.failed error hmem with
    | deadline hdeadline => exact .deadline (herr hdeadline)
    | thrown hlast =>
        rw [← hcalls] at hlast
        exact .thrown hlast
    | encoding hlast hencode =>
        rw [← hcalls] at hlast
        exact .encoding hlast hencode
    | limit hlast hencode hlimit =>
        rw [← hcalls] at hlast
        exact .limit hlast hencode hlimit
  case limit =>
    rw [hchunks]
    exact h.limit
  case calls =>
    rw [hcalls]
    exact h.calls
  case returns =>
    rw [hreturns]
    exact h.returns
  case returned =>
    rw [hreturns]
    exact h.returned

/-- What `finish` changes. -/
structure Finished (s s' : ServerStream V) : Prop where
  finished : s'.finished = true
  isOpen : s'.isOpen = s.isOpen
  phase : s'.phase = s.phase
  chunks : s'.chunks = s.chunks
  calls : s'.calls = s.calls
  pending : ∀ n, s'.pending = some n → s.pending = some n

theorem finished_finish (cfg : StreamConfig V) (s : ServerStream V) :
  s.Finished (s.finish cfg)
  := by
  rw [finish]
  split
  case isTrue hfinished => exact ⟨hfinished, rfl, rfl, rfl, rfl, fun _ hn => hn⟩
  case isFalse hfinished =>
    rw [returnIterator]
    split
    · exact ⟨rfl, rfl, rfl, rfl, rfl, by rintro _ ⟨⟩⟩
    · exact ⟨rfl, rfl, rfl, rfl, rfl, by rintro _ ⟨⟩⟩

theorem Sound.finish (h : s.Sound cfg) (hreturns : s.finished = false → s.returns = []) :
  (s.finish cfg).Sound cfg
  := by
  have herr : s.err = some .deadlineExceeded → s.cancelStream.err = some .deadlineExceeded := by
    intro hdeadline
    rw [cancelStream, hdeadline]
    rfl
  rw [ServerStream.finish]
  split
  case isTrue => exact h
  case isFalse hfinished =>
    have hnone := hreturns (Bool.eq_false_iff.mpr hfinished)
    have hcanceled : Sound cfg { s.cancelStream with finished := true, pending := none } :=
      h.congr rfl rfl rfl herr
    rw [returnIterator]
    split
    case isFalse => exact hcanceled
    case isTrue =>
      constructor
      case opening => exact hcanceled.opening
      case terminal => exact hcanceled.terminal
      case messages => exact hcanceled.messages
      case ended => exact hcanceled.ended
      case failed =>
        intro error hmem
        cases hcanceled.failed error hmem with
        | deadline hdeadline => exact .deadline hdeadline
        | thrown hlast => exact .thrown hlast
        | encoding hlast hencode => exact .encoding hlast hencode
        | limit hlast hencode hlimit => exact .limit hlast hencode hlimit
      case limit => exact hcanceled.limit
      case calls => exact hcanceled.calls
      case returns =>
        rw [cancelStream, hnone]
        exact Nat.le_refl 1
      case returned =>
        rw [cancelStream, hnone]
        intro err hmem
        rw [List.mem_singleton.mp hmem]
        rfl

/-- What is sent is sound, and the phase fits to it. -/
structure Guarded (cfg : StreamConfig V) (s : ServerStream V) : Prop where
  sound : s.Sound cfg
  phased : s.Phased cfg

/-- A stream is finished, and its pull ends. -/
theorem guarded_finish (hsound : s.Sound cfg) (hpending : ∀ n, s.pending = some n → n + 1 = s.calls.length)
    (hreturns : s.finished = false → s.returns = []) (rest : List Task) :
  Guarded cfg { s.finish cfg with phase := .tasks rest }
  := by
  have hfinish := s.finished_finish cfg
  have hcontra : ∀ {p : Prop}, (s.finish cfg).finished = false → p := by
    intro p hf
    rw [hfinish.finished] at hf
    cases hf
  constructor
  case sound => exact (hsound.finish hreturns).congr rfl rfl rfl (fun hd => hd)
  case phased =>
    constructor
    case ended => exact fun _ => .inr ⟨rest, rfl, .inl hfinish.finished⟩
    case isOpen => exact fun _ _ => .inr ⟨rest, rfl⟩
    case pending =>
      intro n hn
      rw [hfinish.calls]
      exact hpending n (hfinish.pending n hn)
    case waits => rintro - _ ⟨⟩
    case calling => rintro ⟨⟩
    case answered => exact fun hf => hcontra hf
    case taken => exact fun hf => hcontra hf
    case rejected => rintro - _ ⟨⟩
    case returns => exact fun hf => hcontra hf

/-! ### Chunks that are sent -/

/-- A chunk is sent. -/
theorem Sound.send (h : s.Sound cfg) (hnot : ¬ s.Ended) {chunk : Chunk}
    (hmessages : ∃ values, values <+: yielded s.calls ∧
      (Server.messages (s.chunks ++ [chunk])).map some = values.map cfg.encode ∧
      (chunk = .ended → values = yielded s.calls))
    (hended : chunk = .ended → s.calls.getLast? = some (some .finishes))
    (hfailed : ∀ error, chunk = .failed error → s.Failure cfg error)
    (hlimit : ∀ bytes, chunk = .message bytes → bytes.length ≤ cfg.maxSendBytes) :
  Sound cfg { s with chunks := s.chunks ++ [chunk] }
  := by
  have hmem : ∀ {other : Chunk}, other ∈ s.chunks ++ [chunk] → other ∈ s.chunks ∨ chunk = other := by
    intro other hother
    obtain ho | ho := List.mem_append.mp hother
    · exact .inl ho
    · exact .inr (List.mem_singleton.mp ho).symm
  constructor
  case opening =>
    dsimp only
    rw [List.head?_append, h.opening]
    rfl
  case terminal =>
    dsimp only
    rw [List.dropLast_concat]
    intro other hother
    cases hterminal : other.isTerminal with
    | false => rfl
    | true => exact absurd ⟨other, hother, hterminal⟩ hnot
  case messages =>
    obtain ⟨values, hbelow, heq, hall⟩ := hmessages
    refine ⟨values, hbelow, heq, fun hmem' => ?_⟩
    obtain hbefore | hnew := hmem hmem'
    · exact absurd ⟨_, hbefore, rfl⟩ hnot
    · exact hall hnew
  case ended =>
    intro hmem'
    obtain hbefore | hnew := hmem hmem'
    · exact h.ended hbefore
    · exact hended hnew
  case failed =>
    intro error hmem'
    have hfailure : s.Failure cfg error := by
      obtain hbefore | hnew := hmem hmem'
      · exact h.failed error hbefore
      · exact hfailed error hnew
    cases hfailure with
    | deadline hdeadline => exact .deadline hdeadline
    | thrown hlast => exact .thrown hlast
    | encoding hlast hencode => exact .encoding hlast hencode
    | limit hlast hencode hlimit => exact .limit hlast hencode hlimit
  case limit =>
    intro bytes hmem'
    obtain hbefore | hnew := hmem hmem'
    · exact h.limit bytes hbefore
    · exact hlimit bytes hnew
  case calls => exact h.calls
  case returns => exact h.returns
  case returned => exact h.returned

/-- A comment is sent. -/
theorem Sound.sendComment (h : s.Sound cfg) (hnot : ¬ s.Ended) :
  Sound cfg { s with chunks := s.chunks ++ [.comment] }
  := by
  obtain ⟨values, hbelow, heq, -⟩ := h.messages
  refine h.send hnot ⟨values, hbelow, ?_, ?_⟩ ?_ ?_ ?_
  · rw [messages_append, List.map_append, heq]
    apply List.append_nil
  · rintro ⟨⟩
  · rintro ⟨⟩
  · rintro _ ⟨⟩
  · rintro _ ⟨⟩

/-- An error event is sent. -/
theorem Sound.sendFailed (h : s.Sound cfg) (hnot : ¬ s.Ended) {error : ServiceError}
    (hfailure : s.Failure cfg error) :
  Sound cfg { s with chunks := s.chunks ++ [.failed error] }
  := by
  obtain ⟨values, hbelow, heq, -⟩ := h.messages
  refine h.send hnot ⟨values, hbelow, ?_, ?_⟩ ?_ ?_ ?_
  · rw [messages_append, List.map_append, heq]
    apply List.append_nil
  · rintro ⟨⟩
  · rintro ⟨⟩
  · intro other heq
    rw [← Chunk.failed.inj heq]
    exact hfailure
  · rintro _ ⟨⟩

/-- A chunk is enqueued, or the consumer has left. -/
theorem guarded_enqueue (hsound : s.Sound cfg)
    (hpending : ∀ n, s.pending = some n → n + 1 = s.calls.length)
    (hreturns : s.finished = false → s.returns = []) {chunk : Chunk} {enqueued failed : List Task}
    (hsent : s.isOpen = true → Sound cfg { s with chunks := s.chunks ++ [chunk] })
    (hnot : s.isOpen = true → ¬ s.Ended) (hterminal : chunk.isTerminal = true → .finish ∈ enqueued)
    (hanswered : s.isOpen = true → s.pending = none → ∀ answer ∈ s.calls, answer.isSome = true)
    (htaken : s.isOpen = true → chunk.isTerminal = false →
      (messages (s.chunks ++ [chunk])).map some =
        (yielded (s.calls.take (s.pending.getD s.calls.length))).map cfg.encode) :
  (s.enqueue cfg chunk enqueued failed).Guarded cfg
  := by
  rw [enqueue]
  split
  case isFalse => exact guarded_finish hsound hpending hreturns _
  case isTrue hopen =>
    constructor
    case sound => exact (hsent hopen).congr rfl rfl rfl (fun hd => hd)
    case phased =>
      constructor
      case ended =>
        rintro ⟨other, hother, hterm⟩
        obtain ho | ho := List.mem_append.mp hother
        · exact absurd ⟨other, ho, hterm⟩ (hnot hopen)
        · rw [List.mem_singleton.mp ho] at hterm
          exact .inr ⟨enqueued, rfl, .inr (hterminal hterm)⟩
      case isOpen => exact fun _ _ => .inr ⟨enqueued, rfl⟩
      case pending => exact hpending
      case waits => rintro - _ ⟨⟩
      case calling => rintro ⟨⟩
      case answered => exact fun _ hnone _ => hanswered hopen hnone
      case taken =>
        intro _ hnone
        apply htaken hopen
        cases hterm : chunk.isTerminal with
        | false => rfl
        | true => exact absurd ⟨chunk, List.mem_append_right _ List.mem_cons_self, hterm⟩ hnone
      case rejected => rintro - _ ⟨⟩
      case returns => exact hreturns

/-- An error event is enqueued, or the consumer has left. -/
theorem guarded_emitError (hsound : s.Sound cfg)
    (hpending : ∀ n, s.pending = some n → n + 1 = s.calls.length)
    (hreturns : s.finished = false → s.returns = []) {error : ServiceError}
    (hfailure : s.isOpen = true → s.Failure cfg error) (hnot : s.isOpen = true → ¬ s.Ended)
    (hanswered : s.isOpen = true → s.pending = none → ∀ answer ∈ s.calls, answer.isSome = true) :
  (s.emitError cfg error).Guarded cfg
  := by
  rw [emitError]
  apply guarded_enqueue hsound hpending hreturns
  · exact fun hopen => hsound.sendFailed (hnot hopen) (hfailure hopen)
  · exact hnot
  · exact fun _ => List.mem_cons_self
  · exact hanswered
  · rintro - ⟨⟩

/-! ### Phases -/

/-- Nothing terminal has been sent before a pull sends, and a stream that is finished is closed. -/
theorem Phased.active (h : s.Phased cfg) (hactive : s.phase.isActive = true) :
  ¬ s.Ended ∧ (s.isOpen = true → s.finished = false)
  := by
  constructor
  · intro hended
    obtain ⟨-, hidle⟩ | ⟨rest, htasks, -⟩ := h.ended hended
    · rw [hidle] at hactive
      cases hactive
    · rw [htasks] at hactive
      cases hactive
  · intro hopen
    cases hfinished : s.finished with
    | false => rfl
    | true =>
        obtain hidle | ⟨rest, htasks⟩ := h.isOpen hfinished hopen
        · rw [hidle] at hactive
          cases hactive
        · rw [htasks] at hactive
          cases hactive

/-- A wait goes on or ends. -/
theorem Phased.advance (h : s.Phased cfg) {n : ℕ} (hcall : s.phase.call = some n) {phase : Phase}
    (hphase : ∀ m, phase.call = some m → m = n) (hcalling : phase ≠ .calling)
    (hrejected : ∀ thrown, phase = .rejected thrown → s.finished = false →
      s.calls.getLast? = some (some (.throws thrown))) :
  Phased cfg { s with phase := phase }
  := by
  obtain ⟨hactive, hbefore⟩ := Phase.isActive_of_call hcall
  obtain ⟨hnot, hlive⟩ := h.active hactive
  constructor
  case ended => exact fun hended => absurd hended hnot
  case isOpen =>
    intro hfinished hopen
    rw [hlive hopen] at hfinished
    cases hfinished
  case pending => exact h.pending
  case waits =>
    intro hfinished m hm
    rw [hphase m hm]
    exact h.waits hfinished n hcall
  case calling => exact fun hc => absurd hc hcalling
  case answered => exact fun hfinished hnone _ => h.answered hfinished hnone hbefore
  case taken =>
    intro hfinished hended
    have htaken := h.taken hfinished hended
    rw [ServerStream.taken, if_neg hbefore] at htaken
    rw [ServerStream.taken, if_neg hcalling]
    exact htaken
  case rejected => exact fun hfinished thrown hr => hrejected thrown hr hfinished
  case returns => exact h.returns

/-- A call that is not answered is the last one. -/
theorem length_of_none {calls : List (Option (Answer V))} {n : ℕ}
    (h : ∀ answer ∈ calls.dropLast, answer.isSome = true) (hn : calls[n]? = some none) :
  n + 1 = calls.length
  := by
  obtain ⟨hlt, -⟩ := List.getElem?_eq_some_iff.mp hn
  by_contra hne
  have hmem : none ∈ calls.dropLast := by
    apply List.mem_iff_getElem?.mpr
    use n
    rw [List.getElem?_dropLast, if_pos (by omega), hn]
  cases h none hmem

/-- All calls are answered when the last one is. -/
theorem answered_of_last {calls : List (Option (Answer V))} {n : ℕ} {answer : Answer V}
    (h : ∀ answer ∈ calls.dropLast, answer.isSome = true) (hn : calls[n]? = some (some answer))
    (hlength : n + 1 = calls.length) :
  ∀ answer ∈ calls, answer.isSome = true
  := by
  intro other hother
  obtain ⟨m, hm⟩ := List.mem_iff_getElem?.mp hother
  cases other with
  | some _ => rfl
  | none =>
      have hlast := length_of_none h hm
      obtain rfl : m = n := by omega
      rw [hm] at hn
      cases hn

theorem getLast?_of_length {α : Type} {l : List α} {n : ℕ} (h : n + 1 = l.length) :
  l.getLast? = l[n]?
  := by
  rw [List.getLast?_eq_getElem?, ← h]
  rfl

theorem last_of_getLast? {α : Type} {l : List α} {x : α} (h : l.getLast? = some x) :
  l.length - 1 + 1 = l.length ∧ l[l.length - 1]? = some x
  := by
  have hne : l ≠ [] := by
    rintro rfl
    cases h
  have hlength := Nat.sub_add_cancel (List.length_pos_of_ne_nil hne)
  rw [getLast?_of_length hlength] at h
  exact ⟨hlength, h⟩

theorem take_of_length {α : Type} {l : List α} {n : ℕ} {x : α} (hn : l[n]? = some x)
    (h : n + 1 = l.length) :
  l = l.take n ++ [x]
  := by
  obtain ⟨hlt, hx⟩ := List.getElem?_eq_some_iff.mp hn
  rw [← hx, ← List.take_succ_eq_append_getElem hlt, h, List.take_length]

/-! ### Steps -/

/-- The last call is answered. -/
theorem set_of_length {calls : List (Option (Answer V))} {call : ℕ} (hcall : calls[call]? = some none)
    (hlength : call + 1 = calls.length) (answer : Answer V) :
  calls = calls.take call ++ [none] ∧
    calls.set call (some answer) = calls.take call ++ [some answer]
  := by
  constructor
  · exact take_of_length hcall hlength
  · rw [List.set_eq_take_append_cons_drop, if_pos (by omega), hlength, List.drop_length]

theorem Sound.answers (h : s.Sound cfg) {call : ℕ} (hcall : s.calls[call]? = some none)
    (answer : Answer V) :
  Sound cfg { s with calls := s.calls.set call (some answer) }
  := by
  have hlength := length_of_none h.calls hcall
  obtain ⟨hcalls, hset⟩ := set_of_length hcall hlength answer
  have hbelow : yielded s.calls <+: yielded (s.calls.set call (some answer)) := by
    rw [hset, hcalls, yielded_append, yielded_append, ← hcalls]
    apply (List.prefix_append_right_inj _).mpr
    apply List.nil_prefix
  have hnot : ∀ {p : Prop} {a : Answer V}, s.calls.getLast? = some (some a) → p := by
    intro p a hsome
    rw [getLast?_of_length hlength, hcall] at hsome
    cases hsome
  constructor
  case opening => exact h.opening
  case terminal => exact h.terminal
  case messages =>
    obtain ⟨values, hvalues, heq, hall⟩ := h.messages
    exact ⟨values, hvalues.trans hbelow, heq, fun hended => hnot (h.ended hended)⟩
  case ended => exact fun hended => hnot (h.ended hended)
  case failed =>
    intro error hmem
    cases h.failed error hmem with
    | deadline hdeadline => exact .deadline hdeadline
    | thrown hthrown => exact hnot hthrown
    | encoding hvalue hencode | limit hvalue hencode hlimit => exact hnot hvalue
  case limit => exact h.limit
  case calls =>
    dsimp only
    rw [hset, List.dropLast_concat]
    have hanswered := h.calls
    rw [hcalls, List.dropLast_concat] at hanswered
    exact hanswered
  case returns => exact h.returns
  case returned => exact h.returned

/-- The iterator answers a call of `next`. -/
theorem Guarded.answers (h : s.Guarded cfg) {call : ℕ} (hcall : s.calls[call]? = some none)
    (hphase : s.phase = .calling → call + 1 < s.calls.length) (answer : Answer V) :
  Guarded cfg { s with calls := s.calls.set call (some answer) }
  := by
  obtain ⟨hsound, hphased⟩ := h
  have hlength := length_of_none hsound.calls hcall
  have hbefore : s.phase ≠ .calling := by
    intro hcalling
    have hlt := hphase hcalling
    omega
  have hunanswered : s.finished = false → s.pending ≠ none := by
    intro hfinished hnone
    cases hphased.answered hfinished hnone hbefore none (List.mem_of_getElem? hcall)
  constructor
  case sound => exact hsound.answers hcall answer
  case phased =>
    constructor
    case ended => exact hphased.ended
    case isOpen => exact hphased.isOpen
    case pending =>
      dsimp only
      rw [List.length_set]
      exact hphased.pending
    case waits => exact hphased.waits
    case calling => exact fun hcalling => absurd hcalling hbefore
    case answered => exact fun hfinished hnone => absurd hnone (hunanswered hfinished)
    case taken =>
      intro hfinished hended
      have htaken := hphased.taken hfinished hended
      rw [ServerStream.taken, if_neg hbefore] at htaken ⊢
      cases hpending : s.pending with
      | none => exact absurd hpending (hunanswered hfinished)
      | some n =>
          have hn := hphased.pending n hpending
          obtain rfl : n = call := by omega
          rw [hpending, Option.getD_some] at htaken
          rw [Option.getD_some, List.take_set_of_le (Nat.le_refl n)]
          exact htaken
    case rejected =>
      intro hfinished thrown hr
      have hthrown := hphased.rejected hfinished thrown hr
      rw [getLast?_of_length hlength, hcall] at hthrown
      cases hthrown
    case returns => exact hphased.returns

/-- The iterator is called. -/
theorem Guarded.calls (h : s.Guarded cfg) (hphase : s.phase = .idle) (hfinished : s.finished = false)
    (hpending : s.pending = none) :
  Guarded cfg { s with calls := s.calls ++ [none], phase := .calling }
  := by
  obtain ⟨hsound, hphased⟩ := h
  have hbefore : s.phase ≠ .calling := by
    rw [hphase]
    rintro ⟨⟩
  have hanswered := hphased.answered hfinished hpending hbefore
  have hnot : ¬ s.Ended := by
    intro hended
    obtain ⟨hdone, -⟩ | ⟨rest, htasks, -⟩ := hphased.ended hended
    · rw [hfinished] at hdone
      cases hdone
    · rw [hphase] at htasks
      cases htasks
  have hyielded : yielded (s.calls ++ [none]) = yielded s.calls := by
    rw [yielded_append]
    apply List.append_nil
  constructor
  case sound =>
    constructor
    case opening => exact hsound.opening
    case terminal => exact hsound.terminal
    case messages =>
      dsimp only
      rw [hyielded]
      exact hsound.messages
    case ended => exact fun hended => absurd ⟨_, hended, rfl⟩ hnot
    case failed => exact fun error hmem => absurd ⟨_, hmem, rfl⟩ hnot
    case limit => exact hsound.limit
    case calls =>
      dsimp only
      rw [List.dropLast_concat]
      exact hanswered
    case returns => exact hsound.returns
    case returned => exact hsound.returned
  case phased =>
    constructor
    case ended => exact fun hended => absurd hended hnot
    case isOpen =>
      dsimp only
      rw [hfinished]
      rintro ⟨⟩
    case pending =>
      dsimp only
      rw [hpending]
      rintro _ ⟨⟩
    case waits => rintro - _ ⟨⟩
    case calling => exact fun _ => List.getLast?_concat
    case answered => exact fun _ _ hcalling => absurd rfl hcalling
    case taken =>
      intro _ hended
      have htaken := hphased.taken hfinished hended
      rw [ServerStream.taken, if_neg hbefore, hpending, Option.getD_none, List.take_length] at htaken
      rw [ServerStream.taken, if_pos rfl, List.length_append, List.length_singleton,
        Nat.add_sub_cancel, List.take_left]
      exact htaken
    case rejected => rintro - _ ⟨⟩
    case returns => exact hphased.returns

/-- The stream ends without a terminal event. -/
theorem Guarded.leave (h : s.Guarded cfg) :
  (s.leave cfg).Guarded cfg
  := guarded_finish h.sound h.phased.pending h.phased.returns _

/-- A pull sends an error event because the deadline has passed. -/
theorem Guarded.deadline (h : s.Guarded cfg) (herr : s.err = some .deadlineExceeded)
    (hbefore : s.phase ≠ .calling) (hnot : ¬ s.Ended) (hlive : s.isOpen = true → s.finished = false) :
  (s.emitError cfg deadlineServiceError).Guarded cfg
  := by
  apply guarded_emitError h.sound h.phased.pending h.phased.returns
  · exact fun _ => .deadline herr
  · exact fun _ => hnot
  · exact fun hopen hnone => h.phased.answered (hlive hopen) hnone hbefore

theorem Guarded.pull (h : s.Guarded cfg) (hphase : s.phase = .idle) :
  (s.pull cfg).Guarded cfg
  := by
  have hbefore : s.phase ≠ .calling := by
    rw [hphase]
    rintro ⟨⟩
  rw [ServerStream.pull]
  split
  case isTrue => exact h
  case isFalse hfinished =>
    have hlive : s.finished = false := Bool.eq_false_iff.mpr hfinished
    have hnot : ¬ s.Ended := by
      intro hended
      obtain ⟨hdone, -⟩ | ⟨rest, htasks, -⟩ := h.phased.ended hended
      · exact hfinished hdone
      · rw [hphase] at htasks
        cases htasks
    split
    case h_1 herr => exact h.deadline herr hbefore hnot (fun _ => hlive)
    case h_2 => exact h.leave
    case h_3 =>
      split
      case h_1 hpending => exact h.calls hphase hlive hpending
      case h_2 call hpending =>
        constructor
        case sound => exact h.sound.congr rfl rfl rfl (fun hd => hd)
        case phased =>
          constructor
          case ended => exact fun hended => absurd hended hnot
          case isOpen => exact fun hdone => absurd hdone hfinished
          case pending => exact h.phased.pending
          case waits =>
            intro _ n hn
            rw [← Option.some.inj hn]
            exact hpending
          case calling => rintro ⟨⟩
          case answered => exact fun hf hnone _ => h.phased.answered hf hnone hbefore
          case taken =>
            intro hf hended
            have htaken := h.phased.taken hf hended
            rw [ServerStream.taken, if_neg hbefore] at htaken
            exact htaken
          case rejected => rintro - _ ⟨⟩
          case returns => exact h.phased.returns

/-- The call of `next` returns a promise. -/
theorem Guarded.nextReturns (h : s.Guarded cfg) (hphase : s.phase = .calling) :
  s.nextReturns.Guarded cfg
  := by
  obtain ⟨hlength, -⟩ := last_of_getLast? (h.phased.calling hphase)
  have hactive : s.phase.isActive = true := by
    rw [hphase]
    rfl
  obtain ⟨hnot, hlive⟩ := h.phased.active hactive
  constructor
  case sound => exact h.sound.congr rfl rfl rfl (fun hd => hd)
  case phased =>
    constructor
    case ended => exact fun hended => absurd hended hnot
    case isOpen =>
      intro hfinished hopen
      rw [ServerStream.nextReturns, hlive hopen] at hfinished
      cases hfinished
    case pending =>
      intro n hn
      rw [← Option.some.inj hn]
      exact hlength
    case waits =>
      intro _ n hn
      exact hn
    case calling => rintro ⟨⟩
    case answered => rintro _ ⟨⟩
    case taken =>
      intro hfinished hended
      have htaken := h.phased.taken hfinished hended
      rw [ServerStream.taken, if_pos hphase] at htaken
      exact htaken
    case rejected => rintro - _ ⟨⟩
    case returns => exact h.phased.returns

/-- The call of `next` throws. -/
theorem Guarded.nextThrows (h : s.Guarded cfg) (hphase : s.phase = .calling)
    (thrown : Option ServiceError) :
  (s.nextThrows cfg thrown).Guarded cfg
  := by
  obtain ⟨hlength, hcall⟩ := last_of_getLast? (h.phased.calling hphase)
  have hactive : s.phase.isActive = true := by
    rw [hphase]
    rfl
  obtain ⟨hnot, -⟩ := h.phased.active hactive
  have hsound := h.sound.answers hcall (.throws thrown)
  have hlast : (s.calls.set (s.calls.length - 1) (some (.throws thrown)))[s.calls.length - 1]? =
      some (some (.throws thrown)) := List.getElem?_set_self (by omega)
  have hlength' : s.calls.length - 1 + 1 =
      (s.calls.set (s.calls.length - 1) (some (.throws thrown))).length := by
    rw [List.length_set]
    exact hlength
  apply guarded_emitError hsound
  · rw [← hlength', hlength]
    exact h.phased.pending
  · exact h.phased.returns
  · intro _
    apply Failure.thrown
    exact (getLast?_of_length hlength').trans hlast
  · exact fun _ => hnot
  · exact fun _ _ => answered_of_last hsound.calls hlast hlength'

/-- A wait ends. -/
theorem Guarded.advance (h : s.Guarded cfg) {n : ℕ} (hcall : s.phase.call = some n) {phase : Phase}
    (hphase : ∀ m, phase.call = some m → m = n) (hcalling : phase ≠ .calling)
    (hrejected : ∀ thrown, phase = .rejected thrown → s.finished = false →
      s.calls.getLast? = some (some (.throws thrown))) :
  Guarded cfg { s with phase := phase }
  := by
  constructor
  case sound => exact h.sound.congr rfl rfl rfl (fun hd => hd)
  case phased => exact h.phased.advance hcall hphase hcalling hrejected

theorem Guarded.wake (h : s.Guarded cfg) {call : ℕ} {winner : Winner}
    (hphase : s.phase = .woken call winner) :
  (s.wake cfg call winner).Guarded cfg
  := by
  have hcall : s.phase.call = some call := by
    rw [hphase]
    rfl
  obtain ⟨hactive, hbefore⟩ := Phase.isActive_of_call hcall
  obtain ⟨hnot, hlive⟩ := h.phased.active hactive
  rw [ServerStream.wake]
  split
  · apply guarded_enqueue h.sound h.phased.pending h.phased.returns
    · exact fun _ => h.sound.sendComment hnot
    · exact fun _ => hnot
    · rintro ⟨⟩
    · exact fun hopen hnone => h.phased.answered (hlive hopen) hnone hbefore
    · intro hopen _
      have htaken := h.phased.taken (hlive hopen) hnot
      rw [taken, if_neg hbefore] at htaken
      rw [messages_append, List.map_append, htaken]
      apply List.append_nil
  · split
    · split
      case isTrue herr => exact h.deadline herr hbefore hnot hlive
      case isFalse => exact h.leave
    · apply h.advance hcall
      · exact fun m hm => (Option.some.inj hm).symm
      · rintro ⟨⟩
      · rintro _ ⟨⟩

/-- The wait has been rejected. -/
theorem Guarded.rejects (h : s.Guarded cfg) {thrown : Option ServiceError}
    (hphase : s.phase = .rejected thrown) :
  (s.emitError cfg (asServiceError thrown)).Guarded cfg
  := by
  have hactive : s.phase.isActive = true := by
    rw [hphase]
    rfl
  have hbefore : s.phase ≠ .calling := by
    rw [hphase]
    rintro ⟨⟩
  obtain ⟨hnot, hlive⟩ := h.phased.active hactive
  apply guarded_emitError h.sound h.phased.pending h.phased.returns
  · exact fun hopen => .thrown (h.phased.rejected (hlive hopen) thrown hphase)
  · exact fun _ => hnot
  · exact fun hopen hnone => h.phased.answered (hlive hopen) hnone hbefore

theorem Guarded.runTask (h : s.Guarded cfg) {rest : List Task} (hphase : s.phase = .tasks rest) :
  (s.runTask cfg rest).Guarded cfg
  := by
  have hbefore : s.phase ≠ .calling := by
    rw [hphase]
    rintro ⟨⟩
  have htaken : s.finished = false → ¬ s.Ended → (messages s.chunks).map some =
      (yielded (s.calls.take (s.pending.getD s.calls.length))).map cfg.encode := by
    intro hfinished hended
    have hbelow := h.phased.taken hfinished hended
    rw [taken, if_neg hbefore] at hbelow
    exact hbelow
  have hended : s.Ended → s.finished = true ∨ .finish ∈ rest := by
    intro hended
    obtain ⟨hdone, -⟩ | ⟨other, htasks, hrest⟩ := h.phased.ended hended
    · exact .inl hdone
    · rw [hphase] at htasks
      rw [Phase.tasks.inj htasks]
      exact hrest
  cases rest with
  | nil =>
      constructor
      case sound => exact h.sound.congr rfl rfl rfl (fun hd => hd)
      case phased =>
        constructor
        case ended =>
          intro hterminal
          exact .inl ⟨(hended hterminal).resolve_right List.not_mem_nil, rfl⟩
        case isOpen => exact fun _ _ => .inl rfl
        case pending => exact h.phased.pending
        case waits => rintro - _ ⟨⟩
        case calling => rintro ⟨⟩
        case answered => exact fun hf hnone _ => h.phased.answered hf hnone hbefore
        case taken => exact htaken
        case rejected => rintro - _ ⟨⟩
        case returns => exact h.phased.returns
  | cons task rest =>
      cases task with
      | finish => exact guarded_finish h.sound h.phased.pending h.phased.returns rest
      | close =>
          constructor
          case sound => exact h.sound.congr rfl rfl rfl (fun hd => hd)
          case phased =>
            constructor
            case ended =>
              intro hterminal
              refine .inr ⟨rest, rfl, (hended hterminal).imp_right (fun hmem => ?_)⟩
              apply (List.mem_cons.mp hmem).resolve_left
              rintro ⟨⟩
            case isOpen => exact fun _ _ => .inr ⟨rest, rfl⟩
            case pending => exact h.phased.pending
            case waits => rintro - _ ⟨⟩
            case calling => rintro ⟨⟩
            case answered => exact fun hf hnone _ => h.phased.answered hf hnone hbefore
            case taken => exact htaken
            case rejected => rintro - _ ⟨⟩
            case returns => exact h.phased.returns

/-- The consumer cancels the body. -/
theorem Guarded.cancel (h : s.Guarded cfg) :
  (s.cancel cfg).Guarded cfg
  := by
  have hclosed : Sound cfg { s with isOpen := false } := h.sound.congr rfl rfl rfl (fun hd => hd)
  have hfinish := finished_finish cfg { s with isOpen := false }
  have hcontra : ∀ {p : Prop}, (s.cancel cfg).finished = false → p := by
    intro p hf
    rw [ServerStream.cancel, hfinish.finished] at hf
    cases hf
  constructor
  case sound => exact hclosed.finish h.phased.returns
  case phased =>
    constructor
    case ended =>
      rw [Ended, ServerStream.cancel, hfinish.chunks, hfinish.finished, hfinish.phase]
      intro hended
      obtain ⟨-, hidle⟩ | ⟨rest, htasks, -⟩ := h.phased.ended hended
      · exact .inl ⟨rfl, hidle⟩
      · exact .inr ⟨rest, htasks, .inl rfl⟩
    case isOpen =>
      rw [ServerStream.cancel, hfinish.isOpen]
      rintro _ ⟨⟩
    case pending =>
      rw [ServerStream.cancel, hfinish.calls]
      exact fun n hn => h.phased.pending n (hfinish.pending n hn)
    case waits => exact fun hf => hcontra hf
    case calling =>
      rw [ServerStream.cancel, hfinish.phase, hfinish.calls]
      exact h.phased.calling
    case answered => exact fun hf => hcontra hf
    case taken => exact fun hf => hcontra hf
    case rejected => exact fun hf => hcontra hf
    case returns => exact fun hf => hcontra hf

/-- An answer is taken. -/
theorem Guarded.take (h : s.Guarded cfg) {call : ℕ} {answer : Answer V}
    (hphase : s.phase = .taking call) (hanswer : s.calls[call]? = some (some answer)) :
  (s.take cfg answer).Guarded cfg
  := by
  have hcall : s.phase.call = some call := by
    rw [hphase]
    rfl
  obtain ⟨hactive, hbefore⟩ := Phase.isActive_of_call hcall
  obtain ⟨hnot, hlive⟩ := h.phased.active hactive
  have hpending : s.isOpen = true → s.pending = some call :=
    fun hopen => h.phased.waits (hlive hopen) call hcall
  have hlength : s.isOpen = true → call + 1 = s.calls.length :=
    fun hopen => h.phased.pending call (hpending hopen)
  have hlast : s.isOpen = true → s.calls.getLast? = some (some answer) := by
    intro hopen
    rw [getLast?_of_length (hlength hopen)]
    exact hanswer
  have hall : s.isOpen = true → ∀ answer ∈ s.calls, answer.isSome = true :=
    fun hopen => answered_of_last h.sound.calls hanswer (hlength hopen)
  have htaken : s.isOpen = true →
      (messages s.chunks).map some = (yielded (s.calls.take call)).map cfg.encode := by
    intro hopen
    have hbelow := h.phased.taken (hlive hopen) hnot
    rw [taken, if_neg hbefore, hpending hopen] at hbelow
    exact hbelow
  have hvalues : s.isOpen = true →
      yielded s.calls = yielded (s.calls.take call) ++ yielded [some answer] := by
    intro hopen
    rw [← yielded_append, ← take_of_length hanswer (hlength hopen)]
  have hsound : Sound cfg { s with pending := none } := h.sound.congr rfl rfl rfl (fun hd => hd)
  have hnone : ∀ n, (none : Option ℕ) = some n → n + 1 = s.calls.length := by
    rintro _ ⟨⟩
  cases answer with
  | throws thrown =>
      constructor
      case sound => exact h.sound.congr rfl rfl rfl (fun hd => hd)
      case phased =>
        constructor
        case ended => exact fun hended => absurd hended hnot
        case isOpen => rintro _ ⟨⟩
        case pending => exact h.phased.pending
        case waits => rintro - _ ⟨⟩
        case calling => rintro ⟨⟩
        case answered => exact fun hf hp _ => h.phased.answered hf hp hbefore
        case taken =>
          intro hf hended
          have hbelow := h.phased.taken hf hended
          rw [ServerStream.taken, if_neg hbefore] at hbelow
          exact hbelow
        case rejected => rintro - _ ⟨⟩
        case returns => exact h.phased.returns
  | finishes =>
      apply guarded_enqueue hsound hnone h.phased.returns
      · intro hopen
        refine hsound.send hnot ⟨yielded s.calls, List.prefix_rfl, ?_, fun _ => rfl⟩
          (fun _ => hlast hopen) ?_ ?_
        · dsimp only
          rw [messages_append, List.map_append, htaken hopen, hvalues hopen, List.map_append]
          rfl
        · rintro _ ⟨⟩
        · rintro _ ⟨⟩
      · exact fun _ => hnot
      · exact fun _ => List.mem_cons_of_mem _ List.mem_cons_self
      · exact fun hopen _ => hall hopen
      · rintro - ⟨⟩
  | yields value =>
      cases hencode : cfg.encode value with
      | none =>
          simp only [ServerStream.take, hencode]
          apply guarded_emitError hsound hnone h.phased.returns
          · exact fun hopen => .encoding (hlast hopen) hencode
          · exact fun _ => hnot
          · exact fun hopen _ => hall hopen
      | some bytes =>
          simp only [ServerStream.take, hencode]
          split
          case isTrue hlimit =>
            apply guarded_emitError hsound hnone h.phased.returns
            · exact fun hopen => .limit (hlast hopen) hencode hlimit
            · exact fun _ => hnot
            · exact fun hopen _ => hall hopen
          case isFalse hlimit =>
            have hmessages : s.isOpen = true → (messages (s.chunks ++ [.message bytes])).map some =
                (yielded s.calls).map cfg.encode := by
              intro hopen
              have hone : (yielded [some (Answer.yields value)]).map cfg.encode = [some bytes] := by
                rw [← hencode]
                rfl
              rw [messages_append, List.map_append, htaken hopen, hvalues hopen, List.map_append, hone]
              rfl
            apply guarded_enqueue hsound hnone h.phased.returns
            · intro hopen
              refine hsound.send hnot ⟨yielded s.calls, List.prefix_rfl, hmessages hopen,
                fun _ => rfl⟩ ?_ ?_ ?_
              · rintro ⟨⟩
              · rintro _ ⟨⟩
              · intro other heq
                rw [← Chunk.message.inj heq]
                exact Nat.le_of_not_lt hlimit
            · exact fun _ => hnot
            · rintro ⟨⟩
            · exact fun hopen _ => hall hopen
            · intro hopen _
              dsimp only
              rw [Option.getD_none, List.take_length]
              exact hmessages hopen

/-- A step keeps what is sent sound. -/
theorem Guarded.step (h : s.Guarded cfg) (hstep : StreamStep cfg s s') :
  s'.Guarded cfg
  := by
  have hactive : ∀ {n : ℕ} {phase : Phase}, s.phase = phase → phase.call = some n →
      s.phase.call = some n := by
    rintro n phase rfl hcall
    exact hcall
  cases hstep with
  | pulls hphase => exact h.pull hphase
  | nextThrows hphase thrown => exact h.nextThrows hphase thrown
  | nextReturns hphase => exact h.nextReturns hphase
  | answers hcall hphase answer => exact h.answers hcall hphase answer
  | messageReady hphase hanswer | heartbeat hphase hkeepAlive | contextEnds hphase herr =>
      apply h.advance (hactive hphase rfl)
      · exact fun m hm => (Option.some.inj hm).symm
      · rintro ⟨⟩
      · rintro _ ⟨⟩
  | messageFailed hphase hanswer =>
      have hcall := hactive hphase rfl
      apply h.advance hcall
      · rintro _ ⟨⟩
      · rintro ⟨⟩
      · intro thrown heq hfinished
        have hlength := h.phased.pending _ (h.phased.waits hfinished _ hcall)
        rw [← Phase.rejected.inj heq, getLast?_of_length hlength]
        exact hanswer
  | wakes hphase => exact h.wake hphase
  | rejects hphase => exact h.rejects hphase
  | takes hphase hanswer => exact h.take hphase hanswer
  | runsTask hphase => exact h.runTask hphase
  | cancels herr err =>
      have hp := h.phased
      constructor
      case sound =>
        refine h.sound.congr rfl rfl rfl ?_
        rw [herr]
        rintro ⟨⟩
      case phased =>
        exact ⟨hp.ended, hp.isOpen, hp.pending, hp.waits, hp.calling, hp.answered, hp.taken,
          hp.rejected, hp.returns⟩
  | leaves => exact h.cancel

theorem Guarded.run (hrun : Relation.ReflTransGen (StreamStep cfg) (newServerStream V) s) :
  s.Guarded cfg
  := by
  induction hrun with
  | refl => exact ⟨sound_newServerStream, phased_newServerStream⟩
  | tail _ hstep ih => exact ih.step hstep

/-- All answers but that of the last call have been taken. -/
theorem Phased.length_le_taken (h : s.Phased cfg) :
  s.calls.length ≤ s.taken + 1
  := by
  rw [ServerStream.taken]
  split
  · omega
  · cases hpending : s.pending with
    | none => exact Nat.le_succ _
    | some n => exact (h.pending n hpending).ge

end ServerStream

/-- In every run of a stream: it sends an opening comment, then events of the values that the
iterator has yielded, in order, and comments, and one terminal event at most behind them, which is
an end event only if the iterator has finished; no message is longer than the limit; `next` is
called when its calls are answered, and `return` once at most, behind the end of the context. Before
the end, no value is left out but that of the last call. -/
theorem serverStream_sound {s : ServerStream V}
    (hrun : Relation.ReflTransGen (StreamStep cfg) (newServerStream V) s) :
  s.Sound cfg ∧ (s.finished = false → ¬ s.Ended → ∃ values outstanding,
    yielded s.calls = values ++ outstanding ∧ outstanding.length ≤ 1 ∧
    (messages s.chunks).map some = values.map cfg.encode)
  := by
  have h := ServerStream.Guarded.run hrun
  refine ⟨h.sound, fun hfinished hended => ?_⟩
  use yielded (s.calls.take s.taken), yielded (s.calls.drop s.taken)
  refine ⟨?_, ?_, h.phased.taken hfinished hended⟩
  · rw [← yielded_append, List.take_append_drop]
  · apply (List.length_filterMap_le _ _).trans
    have htaken := h.phased.length_le_taken
    rw [List.length_drop]
    omega

/-- A stream of numbers that are all encoded alike. -/
def countingStream : StreamConfig ℕ := ⟨fun _ => some (.ofNat 1), 64, 1, true⟩

/-- A value, a comment while the next one is waited for, and the end. -/
theorem serverStream_sound_one :
  ∃ s : ServerStream ℕ, s.Sound countingStream ∧ s.returns = [some .canceled] ∧
    s.chunks = [.comment, .message [100, 97, 116, 97, 58, 32, 49, 10, 10], .comment, .ended]
  := by
  let value : Bytes := [100, 97, 116, 97, 58, 32, 49, 10, 10]
  let called : ServerStream ℕ := ⟨none, true, false, some 0, [none], .racing 0, [], [.comment]⟩
  have hcalled : Relation.ReflTransGen (StreamStep countingStream) (newServerStream ℕ) called :=
    .tail (.tail .refl (.pulls rfl)) (.nextReturns rfl)
  let taking : ServerStream ℕ :=
    ⟨none, true, false, some 0, [some (.yields 0)], .taking 0, [], [.comment]⟩
  have htaking : Relation.ReflTransGen (StreamStep countingStream) called taking :=
    .tail (.tail (.tail .refl (@StreamStep.answers _ _ _ 0 rfl (by rintro ⟨⟩) (.yields 0)))
      (.messageReady rfl (.inr ⟨0, rfl⟩))) (@StreamStep.wakes _ _ _ 0 .message rfl)
  let sent : ServerStream ℕ := ⟨none, true, false, none, [some (.yields 0)], .tasks [], [],
    [.comment, .message value]⟩
  have hsent : StreamStep countingStream taking sent :=
    @StreamStep.takes _ _ taking 0 (.yields 0) rfl rfl
  let waits : ServerStream ℕ := ⟨none, true, false, some 1, [some (.yields 0), none], .idle, [],
    [.comment, .message value, .comment]⟩
  have hwaits : Relation.ReflTransGen (StreamStep countingStream) sent waits :=
    .tail (.tail (.tail (.tail (.tail (.tail .refl (.runsTask rfl)) (.pulls rfl)) (.nextReturns rfl))
      (.heartbeat rfl Nat.one_pos)) (@StreamStep.wakes _ _ _ 1 .heartbeat rfl))
      (@StreamStep.runsTask _ _ _ [] rfl)
  let finishing : ServerStream ℕ := ⟨none, true, false, some 1, [some (.yields 0), some .finishes],
    .taking 1, [], [.comment, .message value, .comment]⟩
  have hfinishing : Relation.ReflTransGen (StreamStep countingStream) waits finishing :=
    .tail (.tail (.tail (.tail .refl (.pulls rfl))
      (@StreamStep.answers _ _ _ 1 rfl (by rintro ⟨⟩) .finishes)) (.messageReady rfl (.inl rfl)))
      (@StreamStep.wakes _ _ _ 1 .message rfl)
  let closing : ServerStream ℕ := ⟨none, true, false, none, [some (.yields 0), some .finishes],
    .tasks [.close, .finish], [], [.comment, .message value, .comment, .ended]⟩
  have hclosing : StreamStep countingStream finishing closing :=
    @StreamStep.takes _ _ finishing 1 .finishes rfl rfl
  let ended : ServerStream ℕ := ⟨some .canceled, false, true, none,
    [some (.yields 0), some .finishes], .idle, [some .canceled],
    [.comment, .message value, .comment, .ended]⟩
  have hended : Relation.ReflTransGen (StreamStep countingStream) closing ended :=
    .tail (.tail (.tail .refl (.runsTask rfl)) (.runsTask rfl)) (@StreamStep.runsTask _ _ _ [] rfl)
  have hbefore := (hcalled.trans htaking).trans (.head hsent hwaits)
  have hrun := (hbefore.trans hfinishing).trans (.head hclosing hended)
  exact ⟨ended, (serverStream_sound hrun).1, rfl, rfl⟩

end Server
