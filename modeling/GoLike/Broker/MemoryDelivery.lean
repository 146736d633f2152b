import GoLike.Broker.Memory

/-!
# The order of deliveries in memory

What a subscription is due are the messages published on its topic from its admission to its
removal. Its chain holds exactly these messages, so that its handler runs for them in this order,
one at a time and each once, until it fails. What happens to one subscription leaves the others as
they are.
-/

namespace Broker.Memory

variable {E : Type}

/-! ### What a subscription is due -/

/-- What is known of a subscription from the events: how many subscriptions there are, its topic,
whether it has been removed, and the messages published for it. -/
structure Window where
  subscribed : ℕ
  topic : Option JsString
  closed : Bool
  messages : List BrokerMessage

/-- The message is admitted by a publication. -/
def BrokerMessage.valid (message : BrokerMessage) : Bool := (prepareMessage message).toOption.isSome

namespace Window

/-- What is known of subscription `i` after an event. -/
def after (i : ℕ) (w : Window) : BrokerEvent E → Window
  | .publishes topic message =>
      if w.topic = some topic ∧ w.closed = false ∧ message.valid then
        { w with messages := w.messages ++ [message] }
      else w
  | .subscribes topic =>
      match brokerTopic topic with
      | .error _ => w
      | .ok selectedTopic =>
          { w with
            subscribed := w.subscribed + 1
            topic := if w.subscribed = i then some selectedTopic else w.topic }
  | .unsubscribes j => if j = i then { w with closed := true } else w
  | .fails j _ _ => if j = i then { w with closed := true } else w
  | _ => w

/-- What is known of subscription `i` from events. -/
def of (i : ℕ) (events : List (BrokerEvent E)) : Window :=
  events.foldl (after i) ⟨0, none, false, []⟩

end Window

/-- The messages published on the topic of subscription `i` between its admission and its
removal. -/
def due (i : ℕ) (events : List (BrokerEvent E)) : List BrokerMessage :=
  (Window.of i events).messages

/-- The messages for which the handler of a subscription has been run. -/
def MemorySubscription.handled (subscription : MemorySubscription E) : List BrokerMessage :=
  subscription.chain.started.map deliveryMessage

/-- The messages that a subscription has admitted. -/
def MemorySubscription.admitted (subscription : MemorySubscription E) : List BrokerMessage :=
  subscription.chain.messages.map deliveryMessage

/-! ### What an event does to a subscription -/

/-- The event is one of subscription `j`. -/
def BrokerEvent.concerns (j : ℕ) : BrokerEvent E → Bool
  | .publishes _ _ => true
  | .subscribes _ => false
  | .unsubscribes i => i = j
  | .starts i _ => i = j
  | .completes i _ => i = j
  | .fails i _ _ => i = j
  | .skips i _ => i = j
  | .terminates i => i = j
  | .settles _ => false
  | .abandons _ => false

/-- A subscription that receives a published message. -/
def MemorySubscription.receive (subscription : MemorySubscription E) (prepared : PreparedMessage) :
    MemorySubscription E :=
  { subscription with chain := subscription.chain.append prepared }

/-- What an event does to subscription `j`. -/
inductive Changes (j : ℕ) (s : MemorySubscription E) :
    BrokerEvent E → MemorySubscription E → Prop where
  | idle {e : BrokerEvent E} (h : e.concerns j = false) : Changes j s e s
  | receives {topic : JsString} {message : BrokerMessage} {prepared : PreparedMessage}
      (hprepared : prepareMessage message = .ok prepared) (htopic : s.topic = topic)
      (haccepting : s.accepting = true) :
      Changes j s (.publishes topic message) (s.receive prepared)
  | ignores {topic : JsString} {message : BrokerMessage}
      (h : s.topic ≠ topic ∨ s.accepting = false ∨ message.valid = false ∨
        ∃ refusal, brokerTopic topic = .error refusal) :
      Changes j s (.publishes topic message) s
  | drains (h : s.drain = none) :
      Changes j s (.unsubscribes j) { s with accepting := false, drain := some s.chain.tail }
  | joins {p : Option ℕ} (h : s.drain = some p) : Changes j s (.unsubscribes j) s
  | starts {n : ℕ} {chain : PromiseChain PreparedMessage (Failure E)}
      (h : s.chain.start n = some chain) : Changes j s (.starts j n) { s with chain }
  | completes {n : ℕ} {chain : PromiseChain PreparedMessage (Failure E)}
      (h : s.chain.finish n (.ok ()) = some chain) : Changes j s (.completes j n) { s with chain }
  | fails {n : ℕ} {thrown : Thrown E} {chain : PromiseChain PreparedMessage (Failure E)}
      (h : s.chain.finish n (.error (handlerFailure thrown)) = some chain) :
      Changes j s (.fails j n thrown)
        { s with
          chain
          accepting := false
          terminal := some (s.terminal.getD (.error (handlerFailure thrown))) }
  | skips {n : ℕ} {chain : PromiseChain PreparedMessage (Failure E)}
      (h : s.chain.skip n = some chain) : Changes j s (.skips j n) { s with chain }
  | terminates (outcome : Except (Failure E) Unit) :
      Changes j s (.terminates j) { s with terminal := some (s.terminal.getD outcome) }

namespace MemoryBroker

/-- The members of each topic are the subscriptions of this topic that accept messages, each
once. -/
def Listed (b : MemoryBroker E) : Prop :=
  ∀ topic, (b.members topic).Nodup ∧ ∀ i, i ∈ b.members topic ↔
    ∃ s, b.subscriptions[i]? = some s ∧ s.topic = topic ∧ s.accepting = true

theorem getElem?_modify_subscriptions (b : MemoryBroker E) (i j : ℕ)
    (f : MemorySubscription E → MemorySubscription E) :
  (b.modify i f).subscriptions[j]? =
    if i = j then (b.subscriptions[j]?).map f else b.subscriptions[j]?
  := by
  rw [modify, List.getElem?_modify]
  split
  · rfl
  · simp

/-- A removal makes a subscription refuse messages. -/
theorem getElem?_remove (b : MemoryBroker E) (i j : ℕ) :
  (b.remove i).subscriptions[j]? =
    if i = j then (b.subscriptions[j]?).map fun s => { s with accepting := false }
    else b.subscriptions[j]?
  := by
  unfold remove
  split
  case h_1 hnone =>
    split
    case isTrue heq =>
      subst heq
      rw [hnone]
      rfl
    case isFalse => rfl
  case h_2 s hs =>
    split
    case isTrue => exact getElem?_modify_subscriptions b i j _
    case isFalse hrefuses =>
      split
      case isTrue heq =>
        subst heq
        rw [hs, Option.map_some, ← eq_false_of_ne_true hrefuses]
      case isFalse => rfl

theorem members_modify (b : MemoryBroker E) (i : ℕ)
    (f : MemorySubscription E → MemorySubscription E) (topic : JsString) :
  (b.modify i f).members topic = b.members topic
  := rfl

variable {b : MemoryBroker E}

/-- A removal takes the subscription off the members of its topic. -/
theorem members_remove (h : b.Listed) (i : ℕ) (topic : JsString) :
  (b.remove i).members topic = (b.members topic).erase i
  := by
  have hother : (∀ s, b.subscriptions[i]? = some s → s.topic = topic → s.accepting = false) →
      (b.members topic).erase i = b.members topic := by
    intro hno
    apply List.erase_of_not_mem
    intro hmem
    obtain ⟨s, hs, htopic, haccepting⟩ := ((h topic).2 i).1 hmem
    rw [hno s hs htopic] at haccepting
    cases haccepting
  unfold remove
  split
  case h_1 hnone =>
    rw [hother]
    intro s hs
    rw [hnone] at hs
    cases hs
  case h_2 s hs =>
    split
    case isFalse hrefuses =>
      rw [hother]
      intro s' hs' _
      rw [hs] at hs'
      cases hs'
      exact eq_false_of_ne_true hrefuses
    case isTrue haccepting =>
      have hmem : i ∈ b.members s.topic := ((h s.topic).2 i).2 ⟨s, hs, rfl, haccepting⟩
      cases hget : b.topics.get? s.topic with
      | none =>
          rw [members, hget] at hmem
          cases hmem
      | some l =>
          by_cases htopic : topic = s.topic
          · subst htopic
            rw [members, members, hget]
            dsimp only
            split
            case isTrue hempty =>
              rw [JsMap.get?_delete, if_pos rfl]
              exact (List.isEmpty_iff.1 hempty).symm
            case isFalse =>
              rw [JsMap.get?_set, if_pos rfl]
              rfl
          · have hne : ∀ s', b.subscriptions[i]? = some s' → s'.topic = topic →
                s'.accepting = false := by
              intro s' hs' htopic'
              rw [hs] at hs'
              cases hs'
              exact absurd htopic'.symm htopic
            rw [hother hne, members, members]
            dsimp only
            split
            case isTrue => rw [JsMap.get?_delete, if_neg htopic]
            case isFalse => rw [JsMap.get?_set, if_neg htopic]

theorem Listed.remove (h : b.Listed) (i : ℕ) :
  (b.remove i).Listed
  := by
  intro topic
  rw [members_remove h]
  constructor
  · exact (h topic).1.erase i
  · intro j
    rw [(h topic).1.mem_erase_iff, (h topic).2 j, getElem?_remove]
    by_cases heq : i = j
    · subst heq
      rw [if_pos rfl]
      constructor
      · rintro ⟨hne, -⟩
        exact absurd rfl hne
      · rintro ⟨s, hs, -, haccepting⟩
        obtain ⟨s', -, rfl⟩ := Option.map_eq_some_iff.1 hs
        cases haccepting
    · rw [if_neg heq]
      constructor
      · exact And.right
      · exact fun hs => ⟨Ne.symm heq, hs⟩

variable {f : MemorySubscription E → MemorySubscription E}

/-- A change that keeps the topic and whether messages are accepted keeps the members. -/
theorem Listed.modify (h : b.Listed) (i : ℕ)
    (hf : ∀ s, (f s).topic = s.topic ∧ (f s).accepting = s.accepting) :
  (b.modify i f).Listed
  := by
  intro topic
  rw [members_modify]
  use (h topic).1
  intro j
  rw [(h topic).2 j, getElem?_modify_subscriptions]
  split
  · constructor
    · rintro ⟨s, hs, htopic, haccepting⟩
      use f s
      rw [hs, (hf s).1, (hf s).2]
      exact ⟨rfl, htopic, haccepting⟩
    · rintro ⟨s', hs', htopic, haccepting⟩
      obtain ⟨s, hs, rfl⟩ := Option.map_eq_some_iff.1 hs'
      rw [(hf s).1] at htopic
      rw [(hf s).2] at haccepting
      exact ⟨s, hs, htopic, haccepting⟩
  · exact Iff.rfl

/-! ### Publications -/

/-- The members of a list that accept the message have it appended, and the others stay. -/
theorem getElem?_admitAll {prepared : PreparedMessage} {l : List ℕ} (hnodup : l.Nodup)
    (b : MemoryBroker E) (j : ℕ) :
  (admitAll prepared l b).1.subscriptions[j]? =
    (b.subscriptions[j]?).map fun s => if j ∈ l ∧ s.accepting then s.receive prepared else s
  := by
  induction l generalizing b with
  | nil => simp [admitAll]
  | cons i rest ih =>
      obtain ⟨hi, hrest⟩ := List.nodup_cons.1 hnodup
      rw [admitAll]
      cases hs : b.subscriptions[i]? with
      | none =>
          dsimp only
          rw [ih hrest]
          by_cases heq : i = j
          · rw [← heq, hs]
            rfl
          · simp [List.mem_cons, Ne.symm heq]
      | some s =>
          dsimp only
          by_cases haccepting : s.accepting
          · rw [if_pos haccepting, ih hrest, admitDelivery, getElem?_modify_subscriptions]
            by_cases heq : i = j
            · subst heq
              rw [if_pos rfl, hs]
              simp [hi, haccepting, MemorySubscription.receive]
            · simp [List.mem_cons, Ne.symm heq, heq]
          · rw [if_neg haccepting, ih hrest]
            by_cases heq : i = j
            · subst heq
              rw [hs]
              simp [haccepting]
            · simp [List.mem_cons, Ne.symm heq]

theorem members_admitAll (prepared : PreparedMessage) (l : List ℕ) (b : MemoryBroker E)
    (topic : JsString) :
  (admitAll prepared l b).1.members topic = b.members topic
  := by
  induction l generalizing b with
  | nil => rfl
  | cons i rest ih =>
      rw [admitAll]
      split
      case h_1 => exact ih b
      case h_2 s hs =>
        split
        case isTrue =>
          dsimp only
          rw [ih, admitDelivery, members_modify]
        case isFalse => exact ih b

variable {topic : JsString}

theorem brokerTopic_eq_ok {value : JsString} (h : brokerTopic value = .ok topic) :
  topic = value
  := by
  rw [brokerTopic] at h
  split at h
  case isTrue => cases h
  case isFalse =>
    cases h
    rfl

/-- A publication appends the message to the subscriptions of its topic that accept it. -/
theorem getElem?_publish (h : b.Listed) {message : BrokerMessage} {prepared : PreparedMessage}
    (htopic : brokerTopic topic = .ok topic) (hprepared : prepareMessage message = .ok prepared)
    (j : ℕ) :
  (b.publish topic message).subscriptions[j]? = (b.subscriptions[j]?).map fun s =>
    if s.topic = topic ∧ s.accepting then s.receive prepared else s
  := by
  rw [publish, htopic]
  dsimp only
  rw [hprepared]
  dsimp only
  rw [getElem?_admitAll (h topic).1]
  cases hs : b.subscriptions[j]? with
  | none => rfl
  | some s =>
      have hmem := (h topic).2 j
      rw [hs] at hmem
      rw [Option.map_some, Option.map_some]
      by_cases haccepts : s.topic = topic ∧ s.accepting = true
      · rw [if_pos ⟨hmem.2 ⟨s, rfl, haccepts⟩, haccepts.2⟩, if_pos haccepts]
      · rw [if_neg haccepts, if_neg]
        rintro ⟨hj, -⟩
        obtain ⟨s', hs', haccepts'⟩ := hmem.1 hj
        cases hs'
        exact haccepts haccepts'

theorem publish_refused {message : BrokerMessage}
    (h : (∃ refusal, brokerTopic topic = .error refusal) ∨ ∃ refusal, prepareMessage message = .error refusal) :
  b.publish topic message = b
  := by
  unfold publish
  obtain ⟨refusal, hrefusal⟩ | ⟨refusal, hrefusal⟩ := h
  · rw [hrefusal]
  · split
    case h_1 => rfl
    case h_2 => rw [hrefusal]

/-- A publication either goes to a topic that exists with a message that is valid, or changes
nothing. -/
theorem publish_cases (b : MemoryBroker E) (topic : JsString) (message : BrokerMessage) :
  (∃ prepared, brokerTopic topic = .ok topic ∧ prepareMessage message = .ok prepared) ∨
    (b.publish topic message = b ∧
      ((∃ refusal, brokerTopic topic = .error refusal) ∨ message.valid = false))
  := by
  cases htopic : brokerTopic topic with
  | error refusal => exact .inr ⟨publish_refused (.inl ⟨refusal, htopic⟩), .inl ⟨refusal, rfl⟩⟩
  | ok selected =>
      cases hprepared : prepareMessage message with
      | error refusal =>
          right
          use publish_refused (.inr ⟨refusal, hprepared⟩)
          right
          rw [BrokerMessage.valid, hprepared]
          rfl
      | ok prepared =>
          left
          use prepared
          rw [brokerTopic_eq_ok htopic]
          exact ⟨rfl, rfl⟩

theorem Listed.publish (h : b.Listed) (topic : JsString) (message : BrokerMessage) :
  (b.publish topic message).Listed
  := by
  obtain ⟨prepared, htopic, hprepared⟩ | ⟨hsame, -⟩ := publish_cases b topic message
  · have hmembers : ∀ topic', (b.publish topic message).members topic' = b.members topic' := by
      intro topic'
      rw [MemoryBroker.publish, htopic]
      dsimp only
      rw [hprepared]
      exact members_admitAll prepared _ b topic'
    intro topic'
    rw [hmembers]
    use (h topic').1
    intro i
    rw [(h topic').2 i, getElem?_publish h htopic hprepared]
    constructor
    · rintro ⟨s, hs, htopic', haccepting⟩
      rw [hs]
      use if s.topic = topic ∧ s.accepting then s.receive prepared else s, rfl
      split
      · exact ⟨htopic', haccepting⟩
      · exact ⟨htopic', haccepting⟩
    · rintro ⟨s', hs', htopic', haccepting⟩
      obtain ⟨s, hs, rfl⟩ := Option.map_eq_some_iff.1 hs'
      use s, hs
      split at htopic'
      case isTrue haccepts =>
        rw [if_pos haccepts] at haccepting
        exact ⟨htopic', haccepting⟩
      case isFalse haccepts =>
        rw [if_neg haccepts] at haccepting
        exact ⟨htopic', haccepting⟩
  · rwa [hsame]

/-! ### Subscriptions -/

theorem subscribe_refused {refusal : Refusal} (h : brokerTopic topic = .error refusal) :
  b.subscribe topic = b
  := by rw [subscribe, h]

/-- A new subscription is the last one, and accepts messages. -/
theorem subscriptions_subscribe (b : MemoryBroker E) (h : brokerTopic topic = .ok topic) :
  (b.subscribe topic).subscriptions = b.subscriptions ++ [⟨topic, true, .empty, none, none⟩]
  := by rw [subscribe, h]

theorem members_subscribe (b : MemoryBroker E) (h : brokerTopic topic = .ok topic)
    (topic' : JsString) :
  (b.subscribe topic).members topic' =
    if topic' = topic then b.members topic ++ [b.subscriptions.length] else b.members topic'
  := by
  rw [subscribe, h]
  dsimp only
  rw [members]
  dsimp only
  rw [JsMap.get?_set]
  split
  · rfl
  · rfl

theorem Listed.subscribe (h : b.Listed) (topic : JsString) :
  (b.subscribe topic).Listed
  := by
  cases htopic : brokerTopic topic with
  | error refusal => rwa [subscribe_refused htopic]
  | ok selected =>
      obtain rfl := brokerTopic_eq_ok htopic
      have hlt : ∀ topic' i, i ∈ b.members topic' → i < b.subscriptions.length := by
        intro topic' i hi
        obtain ⟨s, hs, -⟩ := ((h topic').2 i).1 hi
        exact (List.getElem?_eq_some_iff.1 hs).1
      intro topic'
      rw [members_subscribe b htopic, subscriptions_subscribe b htopic]
      by_cases heq : topic' = selected
      · subst heq
        rw [if_pos rfl]
        constructor
        · apply (h topic').1.append (List.nodup_singleton _)
          rw [List.disjoint_singleton]
          exact fun hmem => Nat.lt_irrefl _ (hlt topic' _ hmem)
        · intro i
          rw [List.mem_append, List.mem_singleton, (h topic').2 i]
          constructor
          · rintro (⟨s, hs, hrest⟩ | rfl)
            · use s
              rw [List.getElem?_append_left (List.getElem?_eq_some_iff.1 hs).1]
              exact ⟨hs, hrest⟩
            · exact ⟨_, List.getElem?_concat_length, rfl, rfl⟩
          · rintro ⟨s, hs, hrest⟩
            obtain hlt' | hge := Nat.lt_or_ge i b.subscriptions.length
            · rw [List.getElem?_append_left hlt'] at hs
              exact .inl ⟨s, hs, hrest⟩
            · have hlt'' := (List.getElem?_eq_some_iff.1 hs).1
              rw [List.length_append, List.length_singleton] at hlt''
              exact .inr (by omega)
      · rw [if_neg heq]
        use (h topic').1
        intro i
        rw [(h topic').2 i]
        constructor
        · rintro ⟨s, hs, hrest⟩
          use s
          rw [List.getElem?_append_left (List.getElem?_eq_some_iff.1 hs).1]
          exact ⟨hs, hrest⟩
        · rintro ⟨s, hs, hrest⟩
          use s
          obtain hlt' | hge := Nat.lt_or_ge i b.subscriptions.length
          · rw [List.getElem?_append_left hlt'] at hs
            exact ⟨hs, hrest⟩
          · have hlt'' := (List.getElem?_eq_some_iff.1 hs).1
            rw [List.length_append, List.length_singleton] at hlt''
            obtain rfl : i = b.subscriptions.length := by omega
            rw [List.getElem?_concat_length] at hs
            cases hs
            exact absurd hrest.1.symm heq

/-- Unsubscribing removes the subscription and fixes the tail to wait for, once. -/
theorem getElem?_beginDrain (b : MemoryBroker E) (i j : ℕ) :
  (b.beginDrain i).subscriptions[j]? =
    if i = j then (b.subscriptions[j]?).map fun s =>
      if s.drain = none then { s with accepting := false, drain := some s.chain.tail } else s
    else b.subscriptions[j]?
  := by
  unfold beginDrain
  split
  case h_1 hnone =>
    split
    case isTrue heq =>
      rw [← heq, hnone]
      rfl
    case isFalse => rfl
  case h_2 s hs =>
    split
    case h_1 p hdrain =>
      split
      case isTrue heq =>
        rw [← heq, hs, Option.map_some, if_neg (by simp [hdrain])]
      case isFalse => rfl
    case h_2 hdrain =>
      rw [getElem?_modify_subscriptions, getElem?_remove]
      split
      case isTrue heq =>
        rw [← heq, hs]
        simp [hdrain]
      case isFalse => rfl

theorem Listed.beginDrain (h : b.Listed) (i : ℕ) :
  (b.beginDrain i).Listed
  := by
  unfold MemoryBroker.beginDrain
  split
  case h_1 => exact h
  case h_2 s hs =>
    split
    case h_1 => exact h
    case h_2 => exact (h.remove i).modify i fun s => ⟨rfl, rfl⟩

/-- A handler that fails removes its subscription. -/
theorem getElem?_fail (b : MemoryBroker E) (i j : ℕ)
    (chain : PromiseChain PreparedMessage (Failure E)) (failure : Failure E) :
  (b.fail i chain failure).subscriptions[j]? =
    if i = j then (b.subscriptions[j]?).map fun s =>
      { s with
        chain
        accepting := false
        terminal := some (s.terminal.getD (.error failure)) }
    else b.subscriptions[j]?
  := by
  rw [fail, settle, getElem?_modify_subscriptions, getElem?_remove, getElem?_modify_subscriptions]
  split
  · cases b.subscriptions[j]? with
    | none | some => rfl
  · rfl

theorem Listed.fail (h : b.Listed) (i : ℕ) (chain : PromiseChain PreparedMessage (Failure E))
    (failure : Failure E) :
  (b.fail i chain failure).Listed
  := by
  apply Listed.modify
  case h =>
    apply Listed.remove
    exact h.modify i fun s => ⟨rfl, rfl⟩
  case hf => exact fun s => ⟨rfl, rfl⟩

theorem calls_remove (b : MemoryBroker E) (i : ℕ) :
  (b.remove i).calls = b.calls
  := by
  unfold remove
  split
  · rfl
  · split
    · rfl
    · rfl

theorem calls_admitAll (prepared : PreparedMessage) (l : List ℕ) (b : MemoryBroker E) :
  (admitAll prepared l b).1.calls = b.calls
  := by
  induction l generalizing b with
  | nil => rfl
  | cons i rest ih =>
      rw [admitAll]
      split
      case h_1 => exact ih b
      case h_2 s hs =>
        split
        case isTrue => exact ih _
        case isFalse => exact ih b

/-! ### One event -/

variable {i : ℕ}

theorem moved_eq_some
    {move : PromiseChain PreparedMessage (Failure E) → Option (PromiseChain PreparedMessage (Failure E))}
    {chain : PromiseChain PreparedMessage (Failure E)} (h : b.moved i move = some chain) :
  ∃ s, b.subscriptions[i]? = some s ∧ move s.chain = some chain
  := Option.bind_eq_some_iff.1 h

variable {e : BrokerEvent E} {j : ℕ}

/-- The chain of one subscription moves. -/
theorem changes_moved {s s₀ : MemorySubscription E} (hs₀ : b.subscriptions[i]? = some s₀)
    (hidle : i ≠ j → e.concerns j = false) (hchanges : i = j → Changes j s₀ e (f s₀))
    (hs : b.subscriptions[j]? = some s) :
  ∃ s', (b.modify i f).subscriptions[j]? = some s' ∧ Changes j s e s'
  := by
  rw [getElem?_modify_subscriptions]
  by_cases heq : i = j
  · subst heq
    rw [hs₀] at hs
    cases hs
    rw [if_pos rfl, hs₀]
    exact ⟨f s, rfl, hchanges rfl⟩
  · rw [if_neg heq]
    exact ⟨s, hs, .idle (hidle heq)⟩

variable {b' : MemoryBroker E}

/-- The calls of unsubscribe have nothing to do with the subscriptions. -/
theorem settleCall_of_step {k : ℕ} (he : e = .settles k ∨ e = .abandons k)
    (hstep : b.step e = some b') :
  ∃ i outcome, b.calls[k]? = some ⟨i, none⟩ ∧ b' = b.settleCall k outcome ∧
    ((outcome = .abandoned ∧ e = .abandons k) ∨
      (outcome ≠ .abandoned ∧ (b.drained i).isSome))
  := by
  obtain rfl | rfl := he
  · rw [step] at hstep
    split at hstep
    case h_1 i hcall =>
      obtain ⟨result, hresult, rfl⟩ := Option.map_eq_some_iff.1 hstep
      use i
      cases result with
      | ok u => exact ⟨.drained, hcall, rfl, .inr ⟨by simp, by rw [hresult]; rfl⟩⟩
      | error failure =>
          exact ⟨.failed failure, hcall, rfl, .inr ⟨by simp, by rw [hresult]; rfl⟩⟩
    case h_2 => cases hstep
  · rw [step] at hstep
    split at hstep
    case h_1 i hcall =>
      cases hstep
      exact ⟨i, .abandoned, hcall, rfl, .inl ⟨rfl, rfl⟩⟩
    case h_2 => cases hstep

/-- What an event does to a subscription that is there. -/
theorem step_changes (h : b.Listed) (hstep : b.step e = some b') {s : MemorySubscription E}
    (hs : b.subscriptions[j]? = some s) :
  ∃ s', b'.subscriptions[j]? = some s' ∧ Changes j s e s'
  := by
  cases e with
  | publishes topic message =>
      cases hstep
      obtain ⟨prepared, htopic, hprepared⟩ | ⟨hsame, hrefused⟩ := publish_cases b topic message
      · rw [getElem?_publish h htopic hprepared, hs]
        by_cases haccepts : s.topic = topic ∧ s.accepting = true
        · exact ⟨_, by rw [Option.map_some, if_pos haccepts],
            .receives hprepared haccepts.1 haccepts.2⟩
        · use s, by rw [Option.map_some, if_neg haccepts]
          apply Changes.ignores
          by_cases htopic' : s.topic = topic
          · exact .inr (.inl (eq_false_of_ne_true fun haccepting =>
              haccepts ⟨htopic', haccepting⟩))
          · exact .inl htopic'
      · rw [hsame]
        use s, hs
        apply Changes.ignores
        obtain hrefusal | hvalid := hrefused
        · exact .inr (.inr (.inr hrefusal))
        · exact .inr (.inr (.inl hvalid))
  | subscribes topic =>
      cases hstep
      use s
      cases htopic : brokerTopic topic with
      | error refusal =>
          rw [subscribe_refused htopic]
          exact ⟨hs, .idle rfl⟩
      | ok selected =>
          obtain rfl := brokerTopic_eq_ok htopic
          rw [subscriptions_subscribe b htopic,
            List.getElem?_append_left (List.getElem?_eq_some_iff.1 hs).1]
          exact ⟨hs, .idle rfl⟩
  | unsubscribes i =>
      obtain ⟨s₀, hs₀, rfl⟩ := Option.map_eq_some_iff.1 hstep
      dsimp only
      rw [getElem?_beginDrain]
      by_cases heq : i = j
      · subst heq
        rw [if_pos rfl, hs, Option.map_some]
        cases hdrain : s.drain with
        | none => exact ⟨_, by rw [if_pos rfl], .drains hdrain⟩
        | some p => exact ⟨s, by rw [if_neg (Option.some_ne_none p)], .joins hdrain⟩
      · rw [if_neg heq]
        exact ⟨s, hs, .idle (by simp [BrokerEvent.concerns, heq])⟩
  | starts i n =>
      obtain ⟨chain, hchain, rfl⟩ := Option.map_eq_some_iff.1 hstep
      obtain ⟨s₀, hs₀, hmove⟩ := moved_eq_some hchain
      apply changes_moved hs₀ (by simp [BrokerEvent.concerns]) _ hs
      rintro rfl
      exact .starts hmove
  | completes i n =>
      obtain ⟨chain, hchain, rfl⟩ := Option.map_eq_some_iff.1 hstep
      obtain ⟨s₀, hs₀, hmove⟩ := moved_eq_some hchain
      apply changes_moved hs₀ (by simp [BrokerEvent.concerns]) _ hs
      rintro rfl
      exact .completes hmove
  | fails i n thrown =>
      obtain ⟨chain, hchain, rfl⟩ := Option.map_eq_some_iff.1 hstep
      obtain ⟨s₀, hs₀, hmove⟩ := moved_eq_some hchain
      rw [getElem?_fail]
      by_cases heq : i = j
      · subst heq
        rw [hs₀] at hs
        cases hs
        rw [if_pos rfl, hs₀]
        exact ⟨_, rfl, .fails hmove⟩
      · rw [if_neg heq]
        exact ⟨s, hs, .idle (by simp [BrokerEvent.concerns, heq])⟩
  | skips i n =>
      obtain ⟨chain, hchain, rfl⟩ := Option.map_eq_some_iff.1 hstep
      obtain ⟨s₀, hs₀, hmove⟩ := moved_eq_some hchain
      apply changes_moved hs₀ (by simp [BrokerEvent.concerns]) _ hs
      rintro rfl
      exact .skips hmove
  | terminates i =>
      obtain ⟨outcome, houtcome, rfl⟩ := Option.map_eq_some_iff.1 hstep
      rw [settle, getElem?_modify_subscriptions]
      by_cases heq : i = j
      · subst heq
        rw [if_pos rfl, hs]
        exact ⟨_, rfl, .terminates outcome⟩
      · rw [if_neg heq]
        exact ⟨s, hs, .idle (by simp [BrokerEvent.concerns, heq])⟩
  | settles k =>
      obtain ⟨i, outcome, -, rfl, -⟩ := settleCall_of_step (.inl rfl) hstep
      exact ⟨s, hs, .idle rfl⟩
  | abandons k =>
      obtain ⟨i, outcome, -, rfl, -⟩ := settleCall_of_step (.inr rfl) hstep
      exact ⟨s, hs, .idle rfl⟩

theorem getElem?_modify_none (hs : b.subscriptions[j]? = none) :
  (b.modify i f).subscriptions[j]? = none
  := by
  rw [getElem?_modify_subscriptions, hs]
  split
  · rfl
  · rfl

/-- A subscription that was not there before an event is the one that the event admits. -/
theorem step_none (h : b.Listed) (hstep : b.step e = some b') (hs : b.subscriptions[j]? = none) :
  b'.subscriptions[j]? = none ∨ (j = b.subscriptions.length ∧ ∃ topic,
    e = .subscribes topic ∧ brokerTopic topic = .ok topic ∧
    b'.subscriptions[j]? = some ⟨topic, true, .empty, none, none⟩)
  := by
  cases e with
  | publishes topic message =>
      cases hstep
      left
      obtain ⟨prepared, htopic, hprepared⟩ | ⟨hsame, -⟩ := publish_cases b topic message
      · rw [getElem?_publish h htopic hprepared, hs]
        rfl
      · rwa [hsame]
  | subscribes topic =>
      cases hstep
      cases htopic : brokerTopic topic with
      | error refusal =>
          rw [subscribe_refused htopic]
          exact .inl hs
      | ok selected =>
          obtain rfl := brokerTopic_eq_ok htopic
          rw [subscriptions_subscribe b htopic]
          by_cases heq : j = b.subscriptions.length
          · right
            use heq, selected, rfl, htopic
            rw [heq, List.getElem?_concat_length]
          · left
            rw [List.getElem?_eq_none_iff] at hs ⊢
            rw [List.length_append, List.length_singleton]
            omega
  | unsubscribes i =>
      obtain ⟨s₀, hs₀, rfl⟩ := Option.map_eq_some_iff.1 hstep
      left
      dsimp only
      rw [getElem?_beginDrain, hs]
      split
      · rfl
      · rfl
  | starts | completes | skips =>
      obtain ⟨chain, -, rfl⟩ := Option.map_eq_some_iff.1 hstep
      exact .inl (getElem?_modify_none hs)
  | fails i n thrown =>
      obtain ⟨chain, -, rfl⟩ := Option.map_eq_some_iff.1 hstep
      left
      rw [getElem?_fail, hs]
      split
      · rfl
      · rfl
  | terminates i =>
      obtain ⟨outcome, -, rfl⟩ := Option.map_eq_some_iff.1 hstep
      exact .inl (getElem?_modify_none hs)
  | settles k =>
      obtain ⟨i, outcome, -, rfl, -⟩ := settleCall_of_step (.inl rfl) hstep
      exact .inl hs
  | abandons k =>
      obtain ⟨i, outcome, -, rfl, -⟩ := settleCall_of_step (.inr rfl) hstep
      exact .inl hs

/-- Every event leaves the members of the topics to be the subscriptions that accept messages. -/
theorem Listed.step (h : b.Listed) (hstep : b.step e = some b') :
  b'.Listed
  := by
  cases e with
  | publishes topic message =>
      cases hstep
      exact h.publish topic message
  | subscribes topic =>
      cases hstep
      exact h.subscribe topic
  | unsubscribes i =>
      obtain ⟨s₀, -, rfl⟩ := Option.map_eq_some_iff.1 hstep
      exact h.beginDrain i
  | starts i n | completes i n | skips i n =>
      obtain ⟨chain, -, rfl⟩ := Option.map_eq_some_iff.1 hstep
      exact h.modify i fun s => ⟨rfl, rfl⟩
  | fails i n thrown =>
      obtain ⟨chain, -, rfl⟩ := Option.map_eq_some_iff.1 hstep
      exact h.fail i chain _
  | terminates i =>
      obtain ⟨outcome, -, rfl⟩ := Option.map_eq_some_iff.1 hstep
      exact h.modify i fun s => ⟨rfl, rfl⟩
  | settles k =>
      obtain ⟨i, outcome, -, rfl, -⟩ := settleCall_of_step (.inl rfl) hstep
      exact h
  | abandons k =>
      obtain ⟨i, outcome, -, rfl, -⟩ := settleCall_of_step (.inr rfl) hstep
      exact h

end MemoryBroker

/-! ### Sound subscriptions -/

/-- A subscription runs its deliveries one after the other. One that drains or has failed does not
accept messages, and the drain waits for the last delivery. -/
structure MemorySubscription.Sound (s : MemorySubscription E) : Prop where
  serial : s.chain.Serial
  topic : brokerTopic s.topic = .ok s.topic
  drain : ∀ p, s.drain = some p → s.accepting = false ∧ p = s.chain.tail
  failed : PromiseChain.Serial.Failed s.chain → s.accepting = false

namespace MemorySubscription

open PromiseChain

theorem sound_new {topic : JsString} (h : brokerTopic topic = .ok topic) :
  Sound (⟨topic, true, .empty, none, none⟩ : MemorySubscription E)
  where
  serial := .empty
  topic := h
  drain _ h := by cases h
  failed := by
    rintro ⟨n, failure, h⟩
    cases h

theorem Sound.advance {s : MemorySubscription E} (h : s.Sound)
    {chain : PromiseChain PreparedMessage (Failure E)} (hadvance : Advance s.chain chain)
    (hfailed : Serial.Failed chain → Serial.Failed s.chain) :
  Sound { s with chain }
  where
  serial := h.serial.advance hadvance
  topic := h.topic
  drain p hp := ⟨(h.drain p hp).1, (h.drain p hp).2.trans hadvance.same.2.symm⟩
  failed hchain := h.failed (hfailed hchain)

/-- Every event keeps a subscription sound. -/
theorem Sound.changes {j : ℕ} {s s' : MemorySubscription E} {e : BrokerEvent E} (h : s.Sound)
    (hchanges : Changes j s e s') :
  s'.Sound
  := by
  cases hchanges with
  | idle | ignores | joins => exact h
  | receives hprepared htopic haccepting =>
      constructor
      case serial => exact h.serial.append _
      case topic => exact h.topic
      case drain =>
        intro p hp
        have hrefuses := (h.drain p hp).1
        rw [haccepting] at hrefuses
        cases hrefuses
      case failed =>
        intro hfailed
        have hold : Serial.Failed s.chain := by
          apply Serial.failed_of_append hfailed
        have hrefuses := h.failed hold
        rw [haccepting] at hrefuses
        cases hrefuses
  | drains hdrain =>
      constructor
      case serial => exact h.serial
      case topic => exact h.topic
      case drain =>
        rintro p ⟨⟩
        exact ⟨rfl, rfl⟩
      case failed => exact fun _ => rfl
  | starts hstart => exact h.advance (advance_start hstart) (Serial.failed_start hstart)
  | completes hfinish =>
      exact h.advance (advance_finish hfinish) (Serial.failed_complete hfinish)
  | fails hfinish =>
      have hadvance := advance_finish hfinish
      constructor
      case serial => exact h.serial.advance hadvance
      case topic => exact h.topic
      case drain =>
        intro p hp
        exact ⟨rfl, (h.drain p hp).2.trans hadvance.same.2.symm⟩
      case failed => exact fun _ => rfl
  | skips hskip =>
      exact h.advance (advance_skip hskip) fun _ => h.serial.failed_skip hskip
  | terminates => exact ⟨h.serial, h.topic, h.drain, h.failed⟩

end MemorySubscription

namespace MemoryBroker

/-! ### Sound brokers -/

/-- Every subscription is sound, and a call of unsubscribe waits for a drain. One that has settled
was abandoned, or the last delivery is settled. -/
structure Sound (b : MemoryBroker E) : Prop where
  listed : b.Listed
  subscriptions : ∀ (j : ℕ) (s : MemorySubscription E), b.subscriptions[j]? = some s → s.Sound
  calls : ∀ call ∈ b.calls, ∃ s, b.subscriptions[call.subscription]? = some s ∧ s.drain.isSome ∧
    ∀ outcome, call.outcome = some outcome → outcome = .abandoned ∨
      (s.chain.result s.chain.tail).isSome

theorem sound_new : Sound (newMemoryBroker : MemoryBroker E)
  where
  listed topic := by
    constructor
    · exact List.nodup_nil
    · intro i
      constructor
      · rintro ⟨⟩
      · rintro ⟨s, hs, -⟩
        cases hs
  subscriptions _ _ h := by cases h
  calls _ h := by cases h

variable {j : ℕ} {s s' : MemorySubscription E} {e : BrokerEvent E}

/-- A subscription that drains, and what its last delivery is settled with, stay. -/
theorem drain_changes (hsound : s.Sound) (hdrain : s.drain.isSome) (hchanges : Changes j s e s') :
  s'.drain.isSome ∧
    ((s.chain.result s.chain.tail).isSome → (s'.chain.result s'.chain.tail).isSome)
  := by
  obtain ⟨p, hp⟩ := Option.isSome_iff_exists.1 hdrain
  have hadvance : ∀ {chain : PromiseChain PreparedMessage (Failure E)},
      PromiseChain.Advance s.chain chain →
      (s.chain.result s.chain.tail).isSome → (chain.result chain.tail).isSome := by
    intro chain hchain hresult
    obtain ⟨outcome, houtcome⟩ := Option.isSome_iff_exists.1 hresult
    rw [hchain.same.2, hchain.result houtcome]
    rfl
  cases hchanges with
  | idle | ignores | joins | terminates => exact ⟨hdrain, id⟩
  | receives _ _ haccepting =>
      have hrefuses := (hsound.drain p hp).1
      rw [haccepting] at hrefuses
      cases hrefuses
  | drains hnone => exact ⟨rfl, id⟩
  | starts h => exact ⟨hdrain, hadvance (PromiseChain.advance_start h)⟩
  | completes h | fails h => exact ⟨hdrain, hadvance (PromiseChain.advance_finish h)⟩
  | skips h => exact ⟨hdrain, hadvance (PromiseChain.advance_skip h)⟩

variable {b b' : MemoryBroker E} {k : ℕ} {call : UnsubscribeCall E}

/-- The calls after an event are those before it, a new one that waits for a drain, or one that
settles. -/
theorem step_calls (hstep : b.step e = some b') (hcall : b'.calls[k]? = some call) :
  b.calls[k]? = some call ∨
    (call.outcome = none ∧ ∃ s, b'.subscriptions[call.subscription]? = some s ∧ s.drain.isSome) ∨
    ∃ i outcome, b.calls[k]? = some ⟨i, none⟩ ∧ call = ⟨i, some outcome⟩ ∧
      ((outcome = .abandoned ∧ e = .abandons k) ∨
        (outcome ≠ .abandoned ∧ (b'.drained i).isSome))
  := by
  have hsettles : ∀ {k' : ℕ}, e = .settles k' ∨ e = .abandons k' → b.calls[k]? = some call ∨
      ∃ i outcome, b.calls[k]? = some ⟨i, none⟩ ∧ call = ⟨i, some outcome⟩ ∧
        ((outcome = .abandoned ∧ e = .abandons k) ∨
        (outcome ≠ .abandoned ∧ (b'.drained i).isSome)) := by
    intro k' he
    obtain ⟨i, outcome, hold, rfl, hreason⟩ := settleCall_of_step he hstep
    rw [settleCall, List.getElem?_modify] at hcall
    by_cases heq : k' = k
    · subst heq
      rw [hold] at hcall
      right
      use i, outcome, hold
      constructor
      · simpa using hcall.symm
      · exact hreason
    · left
      simpa [heq] using hcall
  cases e with
  | publishes topic message =>
      cases hstep
      left
      rw [← hcall, publish]
      split
      · rfl
      · split
        · rfl
        · rw [calls_admitAll]
  | subscribes topic =>
      cases hstep
      left
      rw [← hcall, subscribe]
      split
      · rfl
      · rfl
  | unsubscribes i =>
      obtain ⟨s, hs, rfl⟩ := Option.map_eq_some_iff.1 hstep
      dsimp only at hcall ⊢
      obtain hlt | hge := Nat.lt_or_ge k b.calls.length
      · left
        rwa [List.getElem?_append_left hlt] at hcall
      · rw [List.getElem?_append_right hge, List.getElem?_singleton] at hcall
        split at hcall
        case isFalse => cases hcall
        case isTrue =>
          cases hcall
          right
          left
          use rfl
          rw [getElem?_beginDrain, if_pos rfl, hs, Option.map_some]
          use if s.drain = none then { s with accepting := false, drain := some s.chain.tail }
            else s, rfl
          split
          case isTrue => rfl
          case isFalse hdrain => exact Option.isSome_iff_ne_none.2 hdrain
  | starts | completes | skips =>
      obtain ⟨chain, -, rfl⟩ := Option.map_eq_some_iff.1 hstep
      exact .inl hcall
  | fails i n thrown =>
      obtain ⟨chain, -, rfl⟩ := Option.map_eq_some_iff.1 hstep
      left
      rw [← hcall, fail, settle, modify, calls_remove, modify]
  | terminates i =>
      obtain ⟨outcome, -, rfl⟩ := Option.map_eq_some_iff.1 hstep
      exact .inl hcall
  | settles k' =>
      obtain hold | hsettled := hsettles (.inl rfl)
      · exact .inl hold
      · exact .inr (.inr hsettled)
  | abandons k' =>
      obtain hold | hsettled := hsettles (.inr rfl)
      · exact .inl hold
      · exact .inr (.inr hsettled)

/-- Every event keeps a broker sound. -/
theorem Sound.step (h : b.Sound) (hstep : b.step e = some b') :
  b'.Sound
  := by
  have hsubscriptions : ∀ (j : ℕ) (s : MemorySubscription E),
      b'.subscriptions[j]? = some s → s.Sound := by
    intro j s' hs'
    cases hs : b.subscriptions[j]? with
    | none =>
        obtain hnone | ⟨-, topic, -, htopic, hnew⟩ := step_none h.listed hstep hs
        · rw [hnone] at hs'
          cases hs'
        · rw [hnew] at hs'
          cases hs'
          exact MemorySubscription.sound_new htopic
    | some s =>
        obtain ⟨s'', hs'', hchanges⟩ := step_changes h.listed hstep hs
        rw [hs''] at hs'
        cases hs'
        exact (h.subscriptions j s hs).changes hchanges
  use h.listed.step hstep, hsubscriptions
  intro call hcall
  obtain ⟨k, hk⟩ := List.mem_iff_getElem?.1 hcall
  have hold : ∀ {i : ℕ} {outcome : Option (Unsubscribed E)}, b.calls[k]? = some ⟨i, outcome⟩ →
      ∃ s s' : MemorySubscription E, b'.subscriptions[i]? = some s' ∧ s'.drain.isSome ∧
        (∀ result, outcome = some result → result = .abandoned ∨
          (s.chain.result s.chain.tail).isSome) ∧
        ((s.chain.result s.chain.tail).isSome → (s'.chain.result s'.chain.tail).isSome) := by
    intro i outcome hi
    obtain ⟨s, hs, hdrain, houtcome⟩ := h.calls _ (List.mem_of_getElem? hi)
    obtain ⟨s', hs', hchanges⟩ := step_changes h.listed hstep hs
    obtain ⟨hdrain', hresult⟩ := drain_changes (h.subscriptions _ s hs) hdrain hchanges
    exact ⟨s, s', hs', hdrain', houtcome, hresult⟩
  obtain hsame | ⟨hnone, s, hs, hdrain⟩ | ⟨i, outcome, hi, rfl, hreason⟩ := step_calls hstep hk
  · obtain ⟨s, s', hs', hdrain', houtcome, hresult⟩ := hold hsame
    use s', hs', hdrain'
    intro outcome heq
    obtain habandoned | hsettled := houtcome outcome heq
    · exact .inl habandoned
    · exact .inr (hresult hsettled)
  · use s, hs, hdrain
    intro outcome heq
    rw [hnone] at heq
    cases heq
  · obtain ⟨s, s', hs', hdrain', -, -⟩ := hold hi
    use s', hs', hdrain'
    rintro _ ⟨⟩
    obtain ⟨rfl, -⟩ | ⟨-, hdrained⟩ := hreason
    · exact .inl rfl
    · right
      obtain ⟨p, hp⟩ := Option.isSome_iff_exists.1 hdrain'
      rw [drained, hs'] at hdrained
      dsimp only at hdrained
      rwa [hp, Option.bind_some, ((hsubscriptions i s' hs').drain p hp).2] at hdrained

/-! ### Runs -/

variable {events : List (BrokerEvent E)}

/-- What holds of a new broker, and is kept by every event, holds after every run. -/
theorem run_induction {P : List (BrokerEvent E) → MemoryBroker E → Prop}
    (hnew : P [] newMemoryBroker)
    (hstep : ∀ events b e b', run events = some b → P events b → b.step e = some b' → P (events ++ [e]) b')
    (hrun : run events = some b) :
  P events b
  := by
  induction events using List.reverseRecOn generalizing b with
  | nil =>
      cases hrun
      exact hnew
  | append_singleton events e ih =>
      rw [run, List.foldlM_append] at hrun
      obtain ⟨b₁, hb₁, hlast⟩ := Option.bind_eq_some_iff.1 hrun
      have hlast' : b₁.step e = some b := by simpa using hlast
      exact hstep events b₁ e b hb₁ (ih hb₁) hlast'

theorem sound_run (hrun : run events = some b) :
  b.Sound
  := run_induction (P := fun _ b => b.Sound) sound_new (fun _ _ _ _ _ h hstep => h.step hstep) hrun

/-- The context of a call that is abandoned has ended. -/
theorem abandoned_run (hrun : run events = some b) (hcall : b.calls[k]? = some call)
    (habandoned : call.outcome = some .abandoned) :
  .abandons k ∈ events
  := by
  apply run_induction (P := fun events b => ∀ k call, b.calls[k]? = some call →
    call.outcome = some .abandoned → .abandons k ∈ events) _ _ hrun k call hcall habandoned
  · rintro k call ⟨⟩
  · intro events b e b' _ ih hstep k call hcall habandoned
    rw [List.mem_append, List.mem_singleton]
    obtain hold | ⟨hnone, -⟩ | ⟨i, outcome, -, rfl, hreason⟩ := step_calls hstep hcall
    · exact .inl (ih k call hold habandoned)
    · rw [hnone] at habandoned
      cases habandoned
    · cases habandoned
      obtain ⟨-, rfl⟩ | ⟨hne, -⟩ := hreason
      · exact .inr rfl
      · exact absurd rfl hne

/-- What is known of subscription `j` from a broker. -/
def view (b : MemoryBroker E) (j : ℕ) : Window where
  subscribed := b.subscriptions.length
  topic := (b.subscriptions[j]?).map MemorySubscription.topic
  closed := (b.subscriptions[j]?).any fun s => !s.accepting
  messages := ((b.subscriptions[j]?).map MemorySubscription.admitted).getD []

theorem length_of_none (h : ∀ j : ℕ, b'.subscriptions[j]? = none ↔ b.subscriptions[j]? = none) :
  b'.subscriptions.length = b.subscriptions.length
  := by
  have hle := (h b.subscriptions.length).2 (List.getElem?_eq_none (Nat.le_refl _))
  have hge := (h b'.subscriptions.length).1 (List.getElem?_eq_none (Nat.le_refl _))
  rw [List.getElem?_eq_none_iff] at hle hge
  exact Nat.le_antisymm hle hge

/-- Only a subscription makes the subscriptions more. -/
theorem length_step (h : b.Listed) (hstep : b.step e = some b')
    (he : ∀ topic, e ≠ .subscribes topic) :
  b'.subscriptions.length = b.subscriptions.length
  := by
  apply length_of_none
  intro j
  constructor
  · intro hnone
    cases hs : b.subscriptions[j]? with
    | none => rfl
    | some s =>
        obtain ⟨s', hs', -⟩ := step_changes h hstep hs
        rw [hs'] at hnone
        cases hnone
  · intro hnone
    obtain hnone' | ⟨-, topic, rfl, -⟩ := step_none h hstep hnone
    · exact hnone'
    · exact absurd rfl (he topic)

theorem view_of_some (hs : b.subscriptions[j]? = some s) :
  b.view j = ⟨b.subscriptions.length, some s.topic, !s.accepting, s.admitted⟩
  := by
  rw [view, hs]
  rfl

theorem view_of_none (hs : b.subscriptions[j]? = none) :
  b.view j = ⟨b.subscriptions.length, none, false, []⟩
  := by
  rw [view, hs]
  rfl

theorem deliveryMessage_prepare {message : BrokerMessage} {prepared : PreparedMessage}
    (h : prepareMessage message = .ok prepared) :
  deliveryMessage prepared = message
  := by
  rw [prepareMessage] at h
  split at h
  case isTrue => cases h
  case isFalse =>
    cases h
    rfl

theorem valid_of_prepare {message : BrokerMessage} {prepared : PreparedMessage}
    (h : prepareMessage message = .ok prepared) :
  message.valid = true
  := by
  rw [BrokerMessage.valid, h]
  rfl

/-- Tasks that go on leave the messages of a subscription. -/
theorem admitted_advance (h : PromiseChain.Advance s.chain s'.chain) :
  s'.admitted = s.admitted
  := by rw [MemorySubscription.admitted, h.same.1, MemorySubscription.admitted]

/-- The events tell of a subscription that is there what the broker does. -/
theorem after_changes {count : ℕ} (hsound : s.Sound) (hchanges : Changes j s e s')
    (he : ∀ topic, e ≠ .subscribes topic) :
  Window.after j ⟨count, some s.topic, !s.accepting, s.admitted⟩ e =
    ⟨count, some s'.topic, !s'.accepting, s'.admitted⟩
  := by
  cases hchanges with
  | idle h =>
      cases e with
      | subscribes topic => exact absurd rfl (he topic)
      | publishes topic message => cases h
      | unsubscribes | fails =>
          rw [Window.after, if_neg (of_decide_eq_false h)]
      | _ => rfl
  | receives hprepared htopic haccepting =>
      rw [Window.after, if_pos]
      · rw [MemorySubscription.admitted, MemorySubscription.admitted, MemorySubscription.receive,
          PromiseChain.messages_append, List.map_append, List.map_singleton,
          deliveryMessage_prepare hprepared]
      · rw [htopic, haccepting]
        exact ⟨rfl, rfl, valid_of_prepare hprepared⟩
  | @ignores topic message h =>
      rw [Window.after, if_neg]
      rintro ⟨htopic, hopen, hvalid⟩
      cases htopic
      obtain hne | hrefuses | hinvalid | ⟨refusal, hrefusal⟩ := h
      · exact hne rfl
      · rw [hrefuses] at hopen
        cases hopen
      · rw [hinvalid] at hvalid
        cases hvalid
      · rw [hsound.topic] at hrefusal
        cases hrefusal
  | drains h => rw [Window.after, if_pos rfl]; rfl
  | joins h =>
      rw [Window.after, if_pos rfl, (hsound.drain _ h).1]
      rfl
  | @starts n chain h =>
      have hadmitted : MemorySubscription.admitted { s with chain } = s.admitted :=
        admitted_advance (PromiseChain.advance_start h)
      rw [hadmitted]
      rfl
  | @completes n chain h =>
      have hadmitted : MemorySubscription.admitted { s with chain } = s.admitted :=
        admitted_advance (PromiseChain.advance_finish h)
      rw [hadmitted]
      rfl
  | @fails n thrown chain h =>
      have hadmitted : MemorySubscription.admitted
          { s with
            chain
            accepting := false
            terminal := some (s.terminal.getD (.error (handlerFailure thrown))) } = s.admitted :=
        admitted_advance (PromiseChain.advance_finish h)
      rw [hadmitted, Window.after, if_pos rfl]
      rfl
  | @skips n chain h =>
      have hadmitted : MemorySubscription.admitted { s with chain } = s.admitted :=
        admitted_advance (PromiseChain.advance_skip h)
      rw [hadmitted]
      rfl
  | terminates outcome => rfl

/-- The events tell of each subscription what the broker does. -/
theorem after_view (h : b.Sound) (hstep : b.step e = some b') (j : ℕ) :
  (b.view j).after j e = b'.view j
  := by
  by_cases he : ∃ topic, e = .subscribes topic
  · obtain ⟨topic, rfl⟩ := he
    cases hstep
    rw [Window.after]
    cases htopic : brokerTopic topic with
    | error refusal => rw [subscribe_refused htopic]
    | ok selected =>
        obtain rfl := brokerTopic_eq_ok htopic
        dsimp only
        rw [view, view, subscriptions_subscribe b htopic, List.length_append,
          List.length_singleton]
        dsimp only
        obtain hlt | heq | hgt := Nat.lt_trichotomy j b.subscriptions.length
        · rw [List.getElem?_append_left hlt, if_neg (by omega)]
        · subst heq
          rw [if_pos rfl, List.getElem?_concat_length, List.getElem?_eq_none (Nat.le_refl _)]
          rfl
        · rw [if_neg (by omega), List.getElem?_eq_none (by omega), List.getElem?_eq_none]
          rw [List.length_append, List.length_singleton]
          omega
  · have he' : ∀ topic, e ≠ .subscribes topic := fun topic heq => he ⟨topic, heq⟩
    have hlength := length_step h.listed hstep he'
    cases hs : b.subscriptions[j]? with
    | some s =>
        obtain ⟨s', hs', hchanges⟩ := step_changes h.listed hstep hs
        rw [view_of_some hs, view_of_some hs', hlength]
        exact after_changes (h.subscriptions j s hs) hchanges he'
    | none =>
        have hs' : b'.subscriptions[j]? = none := by
          obtain hnone | ⟨-, topic, rfl, -⟩ := step_none h.listed hstep hs
          · exact hnone
          · exact absurd rfl (he' topic)
        have hmissing : ∀ i s, b.subscriptions[i]? = some s → i ≠ j := by
          rintro i s hi rfl
          rw [hs] at hi
          cases hi
        rw [view_of_none hs, view_of_none hs', hlength]
        cases e with
        | publishes topic message =>
            rw [Window.after, if_neg]
            rintro ⟨⟨⟩, -⟩
        | subscribes topic => exact absurd rfl (he' topic)
        | unsubscribes i =>
            obtain ⟨s, hi, -⟩ := Option.map_eq_some_iff.1 hstep
            rw [Window.after, if_neg (hmissing i s hi)]
        | fails i n thrown =>
            obtain ⟨chain, hchain, -⟩ := Option.map_eq_some_iff.1 hstep
            obtain ⟨s, hi, -⟩ := moved_eq_some hchain
            rw [Window.after, if_neg (hmissing i s hi)]
        | _ => rfl

/-- The events of a run tell of each subscription what the broker has done. -/
theorem window_run (hrun : run events = some b) (j : ℕ) :
  Window.of j events = b.view j
  := by
  apply run_induction (P := fun events b => Window.of j events = b.view j) _ _ hrun
  · rfl
  · intro events b e b' hb ih hstep
    rw [Window.of, List.foldl_append, List.foldl_cons, List.foldl_nil]
    rw [Window.of] at ih
    rw [ih]
    exact after_view (sound_run hb) hstep j

/-! ### Deliveries in order -/

/-- A subscription has admitted exactly what it is due, and its handler has run for the first of
these messages in their order, one at a time; for all of them where all deliveries are fulfilled,
and up to the first failure otherwise. -/
structure InOrder (due : List BrokerMessage) (s : MemorySubscription E) : Prop where
  admitted : s.admitted = due
  handled : s.handled <+: due
  alone : ∀ m n, s.chain.status m = some .running → s.chain.status n = some .running → m = n
  complete : (∀ n status, s.chain.status n = some status → status = .fulfilled) → s.handled = due
  failed : ∀ n failure, s.chain.status n = some (.rejected failure) →
    ∃ m failure', m ≤ n ∧ s.chain.status m = some (.rejected failure') ∧
      (∀ k, k < m → s.chain.status k = some .fulfilled) ∧ s.handled = due.take (m + 1)

theorem inOrder_of_sound (h : s.Sound) :
  InOrder s.admitted s
  := by
  have hprefix : s.handled <+: s.admitted := by
    obtain ⟨more, hmore⟩ := h.serial.started
    use more.map deliveryMessage
    rw [MemorySubscription.handled, ← List.map_append, hmore]
    rfl
  constructor
  case admitted => rfl
  case handled => exact hprefix
  case alone => exact fun m n hm hn => h.serial.running_unique hm hn
  case complete =>
    intro hfulfilled
    rw [MemorySubscription.handled, h.serial.started_eq hfulfilled]
    rfl
  case failed =>
    intro n failure hn
    obtain ⟨m, failure', hm, hle, hstatus, hbefore⟩ := h.serial.failed hn
    use m, failure', hle, hstatus, hbefore
    rw [List.prefix_iff_eq_take.1 hprefix, hm, MemorySubscription.handled, List.length_map]

theorem failed_changes (h : s.Sound) (hfailed : PromiseChain.Serial.Failed s.chain)
    (hchanges : Changes j s e s') :
  s'.handled = s.handled ∧ PromiseChain.Serial.Failed s'.chain
  := by
  have hadvance : ∀ {s' : MemorySubscription E}, PromiseChain.Advance s.chain s'.chain →
      s'.handled = s.handled ∧ PromiseChain.Serial.Failed s'.chain := by
    intro s' hchain
    obtain ⟨hstarted, hfailed'⟩ := h.serial.failed_advance hfailed hchain
    rw [MemorySubscription.handled, hstarted]
    exact ⟨rfl, hfailed'⟩
  cases hchanges with
  | idle | ignores | drains | joins | terminates => exact ⟨rfl, hfailed⟩
  | receives => exact ⟨rfl, PromiseChain.Serial.failed_append hfailed _⟩
  | starts h => exact hadvance (PromiseChain.advance_start h)
  | completes h | fails h => exact hadvance (PromiseChain.advance_finish h)
  | skips h => exact hadvance (PromiseChain.advance_skip h)

/-- After a failure, whatever happens runs the handler for no further message. -/
theorem handled_after_failure (hsound : b.Sound) (hevents : events.foldlM step b = some b') {i : ℕ}
    (hs : b.subscriptions[i]? = some s) (hfailed : PromiseChain.Serial.Failed s.chain) :
  ∃ s', b'.subscriptions[i]? = some s' ∧ s'.handled = s.handled
  := by
  induction events generalizing b s with
  | nil =>
      cases hevents
      exact ⟨s, hs, rfl⟩
  | cons e events ih =>
      obtain ⟨b₁, hb₁, hrest⟩ := Option.bind_eq_some_iff.1 hevents
      obtain ⟨s₁, hs₁, hchanges⟩ := step_changes hsound.listed hb₁ hs
      have hkeeps := failed_changes (hsound.subscriptions i s hs) hfailed hchanges
      obtain ⟨s', hs', hhandled⟩ := ih (hsound.step hb₁) hrest hs₁ hkeeps.2
      exact ⟨s', hs', hhandled.trans hkeeps.1⟩

/-- A call of unsubscribe that has settled was abandoned by its context, or all deliveries that its
subscription has admitted are settled, and it admits no more. -/
theorem settled_of_call (hrun : run events = some b) {outcome : Unsubscribed E}
    (hcall : b.calls[k]? = some call) (houtcome : call.outcome = some outcome) :
  (outcome = .abandoned ∧ .abandons k ∈ events) ∨
    ∃ s, b.subscriptions[call.subscription]? = some s ∧ s.accepting = false ∧
      ∀ n status, s.chain.status n = some status → status.Settled
  := by
  have hsound := sound_run hrun
  obtain ⟨s, hs, hdrain, hsettled⟩ := hsound.calls call (List.mem_of_getElem? hcall)
  obtain ⟨p, hp⟩ := Option.isSome_iff_exists.1 hdrain
  have hs' := hsound.subscriptions _ s hs
  obtain rfl | htail := hsettled outcome houtcome
  · exact .inl ⟨rfl, abandoned_run hrun hcall houtcome⟩
  · right
    use s, hs, (hs'.drain p hp).1
    intro n status hstatus
    exact hs'.serial.settled_of_tail htail hstatus

/-- As long as a delivery waits, the handler runs, or the next delivery may start or be skipped. -/
theorem delivery_progress (hsound : b.Sound) {i n : ℕ} (hs : b.subscriptions[i]? = some s)
    (hwaiting : s.chain.status n = some .waiting) :
  (∃ m, s.chain.status m = some .running) ∨ (∃ m, (b.step (.starts i m)).isSome) ∨
    ∃ m, (b.step (.skips i m)).isSome
  := by
  obtain hrunning | ⟨m, chain, hstart⟩ | ⟨m, chain, hskip⟩ :=
    (hsound.subscriptions i s hs).serial.progress hwaiting
  · exact .inl hrunning
  · right
    left
    use m
    rw [step, moved, hs, Option.bind_some, hstart]
    rfl
  · right
    right
    use m
    rw [step, moved, hs, Option.bind_some, hskip]
    rfl

/-- An event of another subscription leaves a subscription, and whether it is a member of a topic,
as they are. -/
theorem step_foreign (hsound : b.Sound) (hstep : b.step e = some b') (he : e.concerns j = false)
    (hs : b.subscriptions[j]? = some s) :
  b'.subscriptions[j]? = some s ∧ ∀ topic, j ∈ b'.members topic ↔ j ∈ b.members topic
  := by
  have hsame : b'.subscriptions[j]? = some s := by
    obtain ⟨s', hs', hchanges⟩ := step_changes hsound.listed hstep hs
    cases hchanges with
    | idle | ignores | joins => exact hs'
    | receives => cases he
    | _ =>
        rw [BrokerEvent.concerns, decide_eq_false_iff_not] at he
        exact absurd rfl he
  use hsame
  intro topic
  rw [((hsound.listed.step hstep) topic).2 j, (hsound.listed topic).2 j, hsame, hs]

/-- The broker in memory delivers in order. Each subscription runs its handler for exactly the
messages published on its topic between its admission and its removal, in their order, one at a
time and each once, until it fails, and after that for none. A call of unsubscribe settles behind
all deliveries of its subscription, unless its own context ends. Deliveries go on as long as there
are any, and what happens to one subscription leaves the others as they are. -/
theorem memory_delivery {events : List (BrokerEvent E)} {b : MemoryBroker E}
    (hrun : run events = some b) :
  (∀ (i : ℕ) (s : MemorySubscription E), b.subscriptions[i]? = some s →
    InOrder (due i events) s) ∧
  (∀ before i n thrown after, events = before ++ .fails i n thrown :: after →
    ∃ (b₁ : MemoryBroker E) (s₁ s : MemorySubscription E), run before = some b₁ ∧
      b₁.subscriptions[i]? = some s₁ ∧ b.subscriptions[i]? = some s ∧ s.handled = s₁.handled) ∧
  (∀ (k : ℕ) (call : UnsubscribeCall E) (outcome : Unsubscribed E), b.calls[k]? = some call →
    call.outcome = some outcome → (outcome = .abandoned ∧ .abandons k ∈ events) ∨
      ∃ s, b.subscriptions[call.subscription]? = some s ∧ s.accepting = false ∧
        ∀ n status, s.chain.status n = some status → status.Settled) ∧
  (∀ (i n : ℕ) (s : MemorySubscription E), b.subscriptions[i]? = some s →
    s.chain.status n = some .waiting → (∃ m, s.chain.status m = some .running) ∨
      (∃ m, (b.step (.starts i m)).isSome) ∨ ∃ m, (b.step (.skips i m)).isSome) ∧
  (∀ e b', b.step e = some b' → ∀ (j : ℕ) (s : MemorySubscription E), e.concerns j = false →
    b.subscriptions[j]? = some s → b'.subscriptions[j]? = some s ∧
      ∀ topic, j ∈ b'.members topic ↔ j ∈ b.members topic)
  := by
  have hsound := sound_run hrun
  refine ⟨?_, ?_, ?_, ?_, ?_⟩
  · intro i s hs
    have hdue : due i events = s.admitted := by
      rw [due, window_run hrun i, view_of_some hs]
    rw [hdue]
    exact inOrder_of_sound (hsound.subscriptions i s hs)
  · rintro before i n thrown after rfl
    rw [run, List.foldlM_append] at hrun
    obtain ⟨b₁, hb₁, hrest⟩ := Option.bind_eq_some_iff.1 hrun
    obtain ⟨b₂, hb₂, hafter⟩ := Option.bind_eq_some_iff.1 hrest
    have hsound₁ := sound_run hb₁
    obtain ⟨chain, hchain, -⟩ := Option.map_eq_some_iff.1 hb₂
    obtain ⟨s₁, hs₁, hfinish⟩ := moved_eq_some hchain
    obtain ⟨s₂, hs₂, hchanges⟩ := step_changes hsound₁.listed hb₂ hs₁
    obtain ⟨hhandled₂, hfailed⟩ : s₂.handled = s₁.handled ∧
        PromiseChain.Serial.Failed s₂.chain := by
      cases hchanges with
      | idle h =>
          rw [BrokerEvent.concerns, decide_eq_false_iff_not] at h
          exact absurd rfl h
      | fails h =>
          obtain ⟨hrunning, rfl⟩ := PromiseChain.finish_eq_some h
          exact ⟨rfl, n, handlerFailure thrown, PromiseChain.status_setStatus_self hrunning⟩
    obtain ⟨s, hs, hhandled⟩ := handled_after_failure (hsound₁.step hb₂) hafter hs₂ hfailed
    exact ⟨b₁, s₁, s, hb₁, hs₁, hs, hhandled.trans hhandled₂⟩
  · intro k call outcome hcall houtcome
    exact settled_of_call hrun hcall houtcome
  · intro i n s hs hwaiting
    exact delivery_progress hsound hs hwaiting
  · intro e b' hstep j s he hs
    exact step_foreign hsound hstep he hs

/-- Two subscriptions of a topic, a publication, a failure of the first handler, and a publication
and a call of unsubscribe after it. -/
def failingEvents : List (BrokerEvent ℕ) :=
  [.subscribes (.ofString "t"), .subscribes (.ofString "t"),
    .publishes (.ofString "t") ⟨[], [1]⟩, .starts 0 0, .starts 1 0, .fails 0 0 ⟨7, true⟩,
    .publishes (.ofString "t") ⟨[], [2]⟩, .completes 1 0, .starts 1 1, .unsubscribes 1,
    .completes 1 1, .settles 0]

theorem memory_delivery_failing :
  ∃ b, run failingEvents = some b ∧
    ∀ (i : ℕ) (s : MemorySubscription ℕ), b.subscriptions[i]? = some s →
      InOrder (due i failingEvents) s
  := by
  obtain ⟨b, hb⟩ := Option.isSome_iff_exists.1
    (show (run failingEvents).isSome = true by decide)
  exact ⟨b, hb, (memory_delivery hb).1⟩

end MemoryBroker

end Broker.Memory
