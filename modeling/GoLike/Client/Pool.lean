import Mathlib.Data.Finset.Basic

/-!
# The connection pool of the client

An attempt borrows an idle transport owner of its address, or dials a new one. The owner is given
back when the exchange has ended: that of a reply whose body is read by the caller when the body
ends. A completed exchange returns the owner to the idle set, which is bounded; every other owner
is closed, as are the owners whose idle timer fires, the oldest idle ones beyond the bound, and all
of them when the client is closed.
-/

namespace Client

/-! ### Owners -/

/-- How far the close of an owner has got. -/
inductive Closing where
  /-- The close of the transport is to be called. -/
  | scheduled
  | called
  /-- The call has settled, or its time is over. -/
  | settled
  deriving DecidableEq

/-- A transport owner that was admitted, with its number. -/
structure Owner (A : Type) where
  number : ℕ
  address : A
  deriving DecidableEq

/-- The variables of an owner. -/
structure Resident where
  idleTimer : Option ℕ
  closing : Option Closing
  /-- How often the close of the transport has been called. Nothing depends on it. -/
  closeCalls : ℕ

/-- An owner that has just been admitted. -/
def newResident : Resident := ⟨none, none, 0⟩

variable {A : Type}

/-- The owners of a client. -/
structure Pool (A : Type) where
  /-- The owners that were admitted, in order. -/
  admitted : List (Owner A)
  residents : Owner A → Resident
  /-- The idle owners, the oldest first. -/
  idle : List (Owner A)
  idleByAddress : A → Option (List (Owner A))
  active : Finset (Owner A)
  connections : List (Owner A)
  closed : Bool
  /-- The number of the next timer. -/
  timers : ℕ

/-- The pool of a new client. -/
def newPool : Pool A := ⟨[], fun _ => newResident, [], fun _ => none, ∅, [], false, 0⟩

variable [DecidableEq A]

namespace Pool

/-- Set the variables of an owner. -/
def setResident (p : Pool A) (client : Owner A) (resident : Resident) : Pool A :=
  { p with residents := Function.update p.residents client resident }

def clearIdleTimer (p : Pool A) (client : Owner A) : Pool A :=
  p.setResident client { p.residents client with idleTimer := none }

/-- Remove an idle owner from the list of its address. -/
def removeByAddress (lists : A → Option (List (Owner A))) (client : Owner A) :
    A → Option (List (Owner A)) :=
  match lists client.address with
  | none => lists
  | some owners =>
      Function.update lists client.address
        (if owners.erase client = [] then none else some (owners.erase client))

/-- Close an owner, once. -/
def closeResident (p : Pool A) (client : Owner A) : Pool A :=
  let p := p.clearIdleTimer client
  if (p.residents client).closing.isSome then p
  else
    let p :=
      if client ∈ p.idle then
        { p with
          idle := p.idle.erase client
          idleByAddress := removeByAddress p.idleByAddress client }
      else p
    setResident { p with active := p.active.erase client } client
      { p.residents client with closing := some .scheduled }

/-- Start the idle timer of an owner. -/
def armIdleTimer (idleTtlMs : ℕ) (p : Pool A) (client : Owner A) : Pool A :=
  if idleTtlMs = 0 then p
  else
    { p.setResident client { p.residents client with idleTimer := some p.timers } with
      timers := p.timers + 1 }

/-- An idle timer fires. -/
def expireIdleOwner (p : Pool A) (client : Owner A) (timer : ℕ) : Pool A :=
  if (p.residents client).idleTimer ≠ some timer ∨ client ∉ p.idle then p
  else (p.clearIdleTimer client).closeResident client

/-- Borrow an idle owner of an address. -/
def borrow (p : Pool A) (address : A) : Option (Owner A × Pool A) :=
  match p.idleByAddress address with
  | none => none
  | some owners =>
      match owners.getLast? with
      | none => none
      | some available =>
          let p :=
            { p with
              idleByAddress := Function.update p.idleByAddress address
                (if owners.dropLast = [] then none else some owners.dropLast)
              idle := p.idle.erase available }
          let p := p.clearIdleTimer available
          some (available, { p with active := insert available p.active })

/-- Admit an owner that was dialed. -/
def admitOwner (p : Pool A) (address : A) : Owner A × Pool A :=
  let client := ⟨p.admitted.length, address⟩
  let p :=
    { p with
      admitted := p.admitted ++ [client]
      residents := Function.update p.residents client newResident
      connections := p.connections ++ [client] }
  (client, if p.closed then p.closeResident client else { p with active := insert client p.active })

/-- Close the oldest idle owners beyond the bound, in a number of rounds. -/
def evict (maxIdle : ℕ) : ℕ → Pool A → Pool A
  | 0, p => p
  | rounds + 1, p =>
      if p.idle.length ≤ maxIdle then p
      else
        match p.idle.head? with
        | none => p
        | some oldest => evict maxIdle rounds (p.closeResident oldest)

/-- Add an idle owner to the list of its address. -/
def addByAddress (lists : A → Option (List (Owner A))) (client : Owner A) :
    A → Option (List (Owner A)) :=
  match lists client.address with
  | none => Function.update lists client.address (some [client])
  | some owners => Function.update lists client.address (some (owners ++ [client]))

/-- An exchange gives its owner back. -/
def release (maxIdle idleTtlMs : ℕ) (p : Pool A) (client : Owner A) (reusable : Bool) : Pool A :=
  let p := { p with active := p.active.erase client }
  if reusable = true ∧ p.closed = false ∧ 0 < maxIdle ∧ (p.residents client).closing = none then
    let p :=
      { p with
        idle := if client ∈ p.idle then p.idle else p.idle ++ [client]
        idleByAddress := addByAddress p.idleByAddress client }
    let p := p.armIdleTimer idleTtlMs client
    p.evict maxIdle p.idle.length
  else p.closeResident client

/-- The client is closed. -/
def beginTransportClose (p : Pool A) : Pool A :=
  if p.closed then p
  else p.connections.foldl closeResident { p with closed := true }

/-- The close of an owner is called. -/
def callClose (p : Pool A) (client : Owner A) : Pool A :=
  p.setResident client
    { p.residents client with
      closing := some .called
      closeCalls := (p.residents client).closeCalls + 1 }

/-- The close of an owner has settled. -/
def forgetTransportOwner (p : Pool A) (client : Owner A) : Pool A :=
  { p.setResident client { p.residents client with closing := some .settled } with
    connections := p.connections.erase client }

end Pool

/-! ### Attempts -/

/-- The body of a response. -/
inductive ReplyBody where
  | absent
  | used
  /-- Another reader has been given out. -/
  | locked
  | unread
  deriving DecidableEq

/-- What the transport has answered. -/
structure Reply where
  isResponse : Bool
  ok : Bool
  isEventStream : Bool
  /-- The response observers have returned a response. -/
  observed : Bool
  body : ReplyBody

/-- How far an attempt has got. -/
inductive AttemptStage (A : Type) where
  | begun
  | dialing (address : A)
  /-- The request is being built, or the transport fetches. -/
  | fetching (client : Owner A)
  /-- The body of a failed response is decoded. -/
  | decoding (client : Owner A)
  | validating (client : Owner A)
  /-- The caller has the response, whose body holds the owner. -/
  | held (client : Owner A)
  | ended

/-- The owner that is lent to an attempt, or to the body of its response. -/
def AttemptStage.lent : AttemptStage A → Option (Owner A)
  | .fetching client => some client
  | .decoding client => some client
  | .validating client => some client
  | .held client => some client
  | _ => none

/-- An attempt of a call. -/
structure Attempt (A : Type) where
  streaming : Bool
  /-- The call is typed, and its response is validated. -/
  typed : Bool
  stage : AttemptStage A

/-- What an attempt does with the reply. -/
inductive Verdict where
  | decode
  | throw
  | validate
  /-- The body is observed, and holds the owner. -/
  | hold
  /-- The exchange is complete. -/
  | complete

/-- The reply of an attempt. -/
def Attempt.judge (a : Attempt A) (reply : Reply) : Verdict :=
  if !reply.isResponse then .throw
  else if !reply.ok then .decode
  else if a.streaming && !reply.isEventStream then .throw
  else if !reply.observed then .throw
  else if a.streaming || (!a.typed && reply.body ≠ .absent && reply.body ≠ .used) then
    match reply.body with
    | .absent => .complete
    | .used => .complete
    | .locked => .throw
    | .unread => .hold
  else if a.typed then .validate
  else .complete

/-- A client and its attempts, which are numbered. -/
structure PooledClient (A : Type) where
  pool : Pool A
  attempts : ℕ → Option (Attempt A)

/-- A new client. -/
def newPooledClient : PooledClient A := ⟨newPool, fun _ => none⟩

namespace PooledClient

/-- Set an attempt. -/
def setAttempt (c : PooledClient A) (i : ℕ) (a : Attempt A) : PooledClient A :=
  { c with attempts := Function.update c.attempts i (some a) }

/-- An attempt acquires an owner of an address. -/
def acquire (c : PooledClient A) (i : ℕ) (a : Attempt A) (address : A) : PooledClient A :=
  if c.pool.closed then c.setAttempt i { a with stage := .ended }
  else
    match c.pool.borrow address with
    | some (client, pool) => { c with pool := pool }.setAttempt i { a with stage := .fetching client }
    | none => c.setAttempt i { a with stage := .dialing address }

/-- The dial of an attempt has resolved. -/
def admitDialed (c : PooledClient A) (i : ℕ) (a : Attempt A) (address : A) : PooledClient A :=
  { c with pool := (c.pool.admitOwner address).2 }.setAttempt i
    { a with stage := if c.pool.closed then .ended else .fetching (c.pool.admitOwner address).1 }

/-- An attempt, or the body of its response, gives its owner back. -/
def release (maxIdle idleTtlMs : ℕ) (c : PooledClient A) (i : ℕ) (a : Attempt A) (client : Owner A)
    (reusable : Bool) : PooledClient A :=
  { c with pool := c.pool.release maxIdle idleTtlMs client reusable }.setAttempt i
    { a with stage := .ended }

/-- The transport has answered an attempt. -/
def respond (maxIdle idleTtlMs : ℕ) (c : PooledClient A) (i : ℕ) (a : Attempt A) (client : Owner A)
    (reply : Reply) : PooledClient A :=
  match a.judge reply with
  | .decode => c.setAttempt i { a with stage := .decoding client }
  | .throw => c.release maxIdle idleTtlMs i a client false
  | .validate => c.setAttempt i { a with stage := .validating client }
  | .hold => c.setAttempt i { a with stage := .held client }
  | .complete => c.release maxIdle idleTtlMs i a client true

end PooledClient

/-- A step of a client, given the bound of the idle set and the time of the idle timers. -/
inductive PoolStep (maxIdle idleTtlMs : ℕ) : PooledClient A → PooledClient A → Prop where
  | begins {c : PooledClient A} {i : ℕ} (hnew : c.attempts i = none) (streaming typed : Bool) :
      PoolStep maxIdle idleTtlMs c (c.setAttempt i ⟨streaming, typed, .begun⟩)
  /-- The service cannot be resolved, or no address is selected. -/
  | fails {c : PooledClient A} {i : ℕ} {a : Attempt A} (hattempt : c.attempts i = some a)
      (hstage : a.stage = .begun) :
      PoolStep maxIdle idleTtlMs c (c.setAttempt i { a with stage := .ended })
  | acquires {c : PooledClient A} {i : ℕ} {a : Attempt A} (hattempt : c.attempts i = some a)
      (hstage : a.stage = .begun) (address : A) :
      PoolStep maxIdle idleTtlMs c (c.acquire i a address)
  /-- The dial rejects, or what it resolves to is no transport client. -/
  | dialRejects {c : PooledClient A} {i : ℕ} {a : Attempt A} {address : A}
      (hattempt : c.attempts i = some a) (hstage : a.stage = .dialing address) :
      PoolStep maxIdle idleTtlMs c (c.setAttempt i { a with stage := .ended })
  | dialResolves {c : PooledClient A} {i : ℕ} {a : Attempt A} {address : A}
      (hattempt : c.attempts i = some a) (hstage : a.stage = .dialing address) :
      PoolStep maxIdle idleTtlMs c (c.admitDialed i a address)
  /-- The request cannot be built, or the fetch rejects. -/
  | fetchRejects {c : PooledClient A} {i : ℕ} {a : Attempt A} {client : Owner A}
      (hattempt : c.attempts i = some a) (hstage : a.stage = .fetching client) :
      PoolStep maxIdle idleTtlMs c (c.release maxIdle idleTtlMs i a client false)
  | responds {c : PooledClient A} {i : ℕ} {a : Attempt A} {client : Owner A}
      (hattempt : c.attempts i = some a) (hstage : a.stage = .fetching client) (reply : Reply) :
      PoolStep maxIdle idleTtlMs c (c.respond maxIdle idleTtlMs i a client reply)
  | decoded {c : PooledClient A} {i : ℕ} {a : Attempt A} {client : Owner A}
      (hattempt : c.attempts i = some a) (hstage : a.stage = .decoding client) :
      PoolStep maxIdle idleTtlMs c (c.release maxIdle idleTtlMs i a client false)
  | validated {c : PooledClient A} {i : ℕ} {a : Attempt A} {client : Owner A}
      (hattempt : c.attempts i = some a) (hstage : a.stage = .validating client) (valid : Bool) :
      PoolStep maxIdle idleTtlMs c (c.release maxIdle idleTtlMs i a client valid)
  /-- The body of a response has been read, has failed or is canceled. -/
  | bodyEnds {c : PooledClient A} {i : ℕ} {a : Attempt A} {client : Owner A}
      (hattempt : c.attempts i = some a) (hstage : a.stage = .held client) :
      PoolStep maxIdle idleTtlMs c (c.release maxIdle idleTtlMs i a client true)
  | timerFires {c : PooledClient A} (client : Owner A) (timer : ℕ) :
      PoolStep maxIdle idleTtlMs c { c with pool := c.pool.expireIdleOwner client timer }
  | closeCalled {c : PooledClient A} {client : Owner A}
      (hclosing : (c.pool.residents client).closing = some .scheduled) :
      PoolStep maxIdle idleTtlMs c { c with pool := c.pool.callClose client }
  | closeSettles {c : PooledClient A} {client : Owner A}
      (hclosing : (c.pool.residents client).closing = some .called) :
      PoolStep maxIdle idleTtlMs c { c with pool := c.pool.forgetTransportOwner client }
  | closes {c : PooledClient A} :
      PoolStep maxIdle idleTtlMs c { c with pool := c.pool.beginTransportClose }

end Client
