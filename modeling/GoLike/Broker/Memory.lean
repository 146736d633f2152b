import GoLike.Lib.JsMap
import GoLike.Lib.JsString
import GoLike.Lib.PromiseChain

/-!
# The broker in memory

A topic has a set of subscriptions that accept messages. A publication chains one delivery on the
tail of each of them, and waits for these deliveries. A subscription that unsubscribes, or whose
handler fails, is removed from its topic; unsubscribing waits for the tail of that moment.
-/

namespace Broker.Memory

/-! ### Messages and failures -/

structure BrokerMessage where
  headers : List (JsString × JsString)
  body : List UInt8
  deriving DecidableEq

/-- A detached payload. -/
structure PreparedMessage where
  headers : List (JsString × JsString)
  body : List UInt8
  deriving DecidableEq

/-- A call that is refused before anything is admitted. -/
inductive Refusal where
  | topic
  | headers
  deriving DecidableEq

def Refusal.message : Refusal → String
  | .topic => "Memory Broker topic must be a non-empty well-formed string"
  | .headers => "Memory Broker message headers must contain well-formed string entries"

/-- Validate one topic. -/
def brokerTopic (value : JsString) : Except Refusal JsString :=
  if value.isEmpty || !value.isWellFormed then .error .topic else .ok value

/-- Validate and detach one payload. -/
def prepareMessage (message : BrokerMessage) : Except Refusal PreparedMessage :=
  if message.headers.any fun header =>
      header.1.isEmpty || !header.1.isWellFormed || !header.2.isWellFormed then
    .error .headers
  else .ok ⟨message.headers, message.body⟩

/-- The message that a delivery owns. -/
def deliveryMessage (prepared : PreparedMessage) : BrokerMessage :=
  ⟨prepared.headers, prepared.body⟩

variable {E : Type}

/-- A value that a handler throws, and whether it is an error. -/
structure Thrown (E : Type) where
  value : E
  isError : Bool

/-- The failure of a handler. -/
inductive Failure (E : Type) where
  | exact (value : E)
  /-- An error that says that a handler rejected with a value that is none. -/
  | nonError (cause : E)

/-- Keep an error, and wrap another value. -/
def handlerFailure (thrown : Thrown E) : Failure E :=
  if thrown.isError then .exact thrown.value else .nonError thrown.value

/-- The failure of a publication. -/
inductive PublishFailure (E : Type) where
  | one (failure : Failure E)
  /-- The failures of several subscriptions, the first of which is the cause. -/
  | aggregate (failures : List (Failure E)) (cause : Failure E)

/-! ### The state -/

/-- A subscription, with its deliveries chained on each other. -/
structure MemorySubscription (E : Type) where
  topic : JsString
  accepting : Bool
  chain : PromiseChain PreparedMessage (Failure E)
  /-- The tail that unsubscribing waits for. -/
  drain : Option (Option ℕ)
  /-- What the terminal promise is settled with. -/
  terminal : Option (Except (Failure E) Unit)

/-- How a call of unsubscribe has settled. -/
inductive Unsubscribed (E : Type) where
  | drained
  | failed (failure : Failure E)
  /-- The context of the call has ended. -/
  | abandoned

structure UnsubscribeCall (E : Type) where
  subscription : ℕ
  outcome : Option (Unsubscribed E)

/-- A broker with its subscriptions, the deliveries that each publication waits for, and the calls
of unsubscribe. -/
structure MemoryBroker (E : Type) where
  topics : JsMap JsString (List ℕ)
  subscriptions : List (MemorySubscription E)
  publications : List (List (ℕ × ℕ))
  calls : List (UnsubscribeCall E)

def newMemoryBroker : MemoryBroker E := ⟨.empty, [], [], []⟩

namespace MemoryBroker

/-- The subscriptions of a topic, in the order in which they were added. -/
def members (b : MemoryBroker E) (topic : JsString) : List ℕ := (b.topics.get? topic).getD []

def modify (b : MemoryBroker E) (i : ℕ) (f : MemorySubscription E → MemorySubscription E) :
    MemoryBroker E :=
  { b with subscriptions := b.subscriptions.modify i f }

/-! ### Steps of the broker -/

/-- Remove a subscription from its topic, and a topic without subscriptions. -/
def remove (b : MemoryBroker E) (i : ℕ) : MemoryBroker E :=
  match b.subscriptions[i]? with
  | none => b
  | some subscription =>
      if subscription.accepting then
        { b.modify i fun subscription => { subscription with accepting := false } with
          topics :=
            match b.topics.get? subscription.topic with
            | none => b.topics
            | some members =>
                if (members.erase i).isEmpty then b.topics.delete subscription.topic
                else b.topics.set subscription.topic (members.erase i) }
      else b

/-- Append a delivery to the tail of a subscription. -/
def admitDelivery (b : MemoryBroker E) (i : ℕ) (prepared : PreparedMessage) : MemoryBroker E :=
  b.modify i fun subscription =>
    { subscription with chain := subscription.chain.append prepared }

/-- Settle the terminal promise of a subscription, unless it is settled. -/
def settle (b : MemoryBroker E) (i : ℕ) (outcome : Except (Failure E) Unit) : MemoryBroker E :=
  b.modify i fun subscription =>
    { subscription with terminal := some (subscription.terminal.getD outcome) }

/-- Admit a message to the members that accept it. -/
def admitAll (prepared : PreparedMessage) :
    List ℕ → MemoryBroker E → MemoryBroker E × List (ℕ × ℕ)
  | [], b => (b, [])
  | i :: rest, b =>
      match b.subscriptions[i]? with
      | none => admitAll prepared rest b
      | some subscription =>
          if subscription.accepting then
            ((admitAll prepared rest (b.admitDelivery i prepared)).1,
              (i, subscription.chain.tasks.length) ::
                (admitAll prepared rest (b.admitDelivery i prepared)).2)
          else admitAll prepared rest b

/-- Publish a message. -/
def publish (b : MemoryBroker E) (topic : JsString) (message : BrokerMessage) : MemoryBroker E :=
  match brokerTopic topic with
  | .error _ => b
  | .ok selectedTopic =>
      match prepareMessage message with
      | .error _ => b
      | .ok prepared =>
          { (admitAll prepared (b.members selectedTopic) b).1 with
            publications := b.publications ++
              [(admitAll prepared (b.members selectedTopic) b).2] }

/-- Subscribe to a topic. -/
def subscribe (b : MemoryBroker E) (topic : JsString) : MemoryBroker E :=
  match brokerTopic topic with
  | .error _ => b
  | .ok selectedTopic =>
      { b with
        subscriptions := b.subscriptions ++ [⟨selectedTopic, true, .empty, none, none⟩]
        topics := b.topics.set selectedTopic (b.members selectedTopic ++ [b.subscriptions.length]) }

/-- Start or join the drain of a subscription. -/
def beginDrain (b : MemoryBroker E) (i : ℕ) : MemoryBroker E :=
  match b.subscriptions[i]? with
  | none => b
  | some subscription =>
      match subscription.drain with
      | some _ => b
      | none =>
          (b.remove i).modify i fun subscription =>
            { subscription with drain := some subscription.chain.tail }

/-- What a drain is settled with. -/
def drained (b : MemoryBroker E) (i : ℕ) : Option (Except (Failure E) Unit) :=
  match b.subscriptions[i]? with
  | none => none
  | some subscription => subscription.drain.bind subscription.chain.result

/-- What a delivery is settled with. -/
def delivered (b : MemoryBroker E) (delivery : ℕ × ℕ) : Option (Except (Failure E) Unit) :=
  match b.subscriptions[delivery.1]? with
  | none => none
  | some subscription => subscription.chain.result (some delivery.2)

/-- What a publication is settled with: the failures of its deliveries, in the order of the
subscriptions. -/
def settleDeliveries (b : MemoryBroker E) (deliveries : List (ℕ × ℕ)) :
    Option (Except (PublishFailure E) Unit) :=
  (deliveries.mapM b.delivered).map fun results =>
    match results.filterMap fun
        | .ok _ => none
        | .error failure => some failure with
    | [] => .ok ()
    | [failure] => .error (.one failure)
    | failure :: failures => .error (.aggregate (failure :: failures) failure)

/-- The handler of a delivery has failed. -/
def fail (b : MemoryBroker E) (i : ℕ) (chain : PromiseChain PreparedMessage (Failure E))
    (failure : Failure E) : MemoryBroker E :=
  ((b.modify i fun subscription => { subscription with chain }).remove i).settle i (.error failure)

/-- The call of unsubscribe with this number settles. -/
def settleCall (b : MemoryBroker E) (k : ℕ) (outcome : Unsubscribed E) : MemoryBroker E :=
  { b with calls := b.calls.modify k fun call => { call with outcome := some outcome } }

end MemoryBroker

/-- What happens to a broker. -/
inductive BrokerEvent (E : Type) where
  | publishes (topic : JsString) (message : BrokerMessage)
  | subscribes (topic : JsString)
  | unsubscribes (i : ℕ)
  /-- The handler of a subscription is called for one of its deliveries. -/
  | starts (i n : ℕ)
  | completes (i n : ℕ)
  | fails (i n : ℕ) (thrown : Thrown E)
  /-- A delivery behind a rejected one is rejected. -/
  | skips (i n : ℕ)
  /-- The terminal promise of a subscription is settled behind its drain. -/
  | terminates (i : ℕ)
  /-- A call of unsubscribe settles behind the drain. -/
  | settles (k : ℕ)
  /-- The context of a call of unsubscribe ends. -/
  | abandons (k : ℕ)

namespace MemoryBroker

/-- A chain of a subscription that has moved. -/
def moved (b : MemoryBroker E) (i : ℕ)
    (move : PromiseChain PreparedMessage (Failure E) →
      Option (PromiseChain PreparedMessage (Failure E))) :
    Option (PromiseChain PreparedMessage (Failure E)) :=
  (b.subscriptions[i]?).bind fun subscription => move subscription.chain

/-- Something happens to a broker, if it can. -/
def step (b : MemoryBroker E) : BrokerEvent E → Option (MemoryBroker E)
  | .publishes topic message => some (b.publish topic message)
  | .subscribes topic => some (b.subscribe topic)
  | .unsubscribes i =>
      (b.subscriptions[i]?).map fun _ =>
        { b.beginDrain i with calls := b.calls ++ [⟨i, none⟩] }
  | .starts i n =>
      (b.moved i fun chain => chain.start n).map fun chain =>
        b.modify i fun subscription => { subscription with chain }
  | .completes i n =>
      (b.moved i fun chain => chain.finish n (.ok ())).map fun chain =>
        b.modify i fun subscription => { subscription with chain }
  | .fails i n thrown =>
      (b.moved i fun chain => chain.finish n (.error (handlerFailure thrown))).map fun chain =>
        b.fail i chain (handlerFailure thrown)
  | .skips i n =>
      (b.moved i fun chain => chain.skip n).map fun chain =>
        b.modify i fun subscription => { subscription with chain }
  | .terminates i => (b.drained i).map (b.settle i)
  | .settles k =>
      match b.calls[k]? with
      | some ⟨i, none⟩ =>
          (b.drained i).map fun
            | .ok _ => b.settleCall k .drained
            | .error failure => b.settleCall k (.failed failure)
      | _ => none
  | .abandons k =>
      match b.calls[k]? with
      | some ⟨_, none⟩ => some (b.settleCall k .abandoned)
      | _ => none

/-- What a new broker is after events. -/
def run (events : List (BrokerEvent E)) : Option (MemoryBroker E) :=
  events.foldlM step newMemoryBroker

end MemoryBroker

end Broker.Memory
