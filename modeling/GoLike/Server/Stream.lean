import GoLike.Lib.JsonWriter
import GoLike.Transport.Sse.Messages

/-!
# The server stream

A handler returns an iterator of values, and the response body is pulled from it as an event
stream: a comment, one event for each value, comments while the iterator is slow, and an end event
or an error event. A pull waits for the iterator, for a timer and for the context of the request,
whichever comes first, and a call of `next` that is not answered yet is kept for the next pull. The
consumer may cancel the body, and the context may end, wherever a pull waits and while the iterator
runs.
-/

open Transport.Sse

namespace Server

/-! ### Errors -/

structure ServiceError where
  code : JsString
  message : JsString
  status : ℕ
  metadata : List (JsString × JsString)
  deriving DecidableEq

def internalServiceError : ServiceError :=
  ⟨.ofString "internal", .ofString "internal service error", 500, []⟩

def deadlineServiceError : ServiceError :=
  ⟨.ofString "deadline_exceeded", .ofString "context deadline exceeded", 504, []⟩

/-- The error for an event that is longer than the send limit. -/
def sendLimitError (byteLength maxSendBytes : ℕ) : ServiceError where
  code := .ofString "resource_exhausted"
  message := JsString.ofString "SSE event is " ++ .ofNat byteLength ++
    .ofString " bytes and exceeds the server send limit of " ++ .ofNat maxSendBytes ++
    .ofString " bytes"
  status := 429
  metadata := []

/-- An error that is thrown is told if it is a service error. -/
def asServiceError (thrown : Option ServiceError) : ServiceError :=
  thrown.getD internalServiceError

/-- The data of an error event. -/
def errorData (error : ServiceError) : JsString :=
  let property : JsString × JsString → JsString :=
    fun p => ⟨p.1.quote⟩ ++ .ofString ":" ++ ⟨p.2.quote⟩
  JsString.ofString "\x7b\"code\":" ++ ⟨error.code.quote⟩ ++ .ofString ",\"message\":" ++
    ⟨error.message.quote⟩ ++ .ofString ",\"status\":" ++ .ofNat error.status ++
    .ofString ",\"metadata\":\x7b" ++
    ⟨[44].intercalate (error.metadata.map (fun p => (property p).units))⟩ ++ .ofString "\x7d\x7d"

/-! ### Chunks -/

/-- What is enqueued into the body. -/
inductive Chunk where
  | comment
  | message (bytes : Bytes)
  | ended
  | failed (error : ServiceError)

/-- The bytes of a chunk. -/
def Chunk.bytes : Chunk → Except ParserError Bytes
  | .comment => encodeSSEComment .empty
  | .message bytes => .ok bytes
  | .ended => encodeSSEEvent (.ofString "\x7b\x7d") (some (.ofString "end"))
  | .failed error => encodeSSEEvent (errorData error) (some (.ofString "error"))

/-- A stream handler. -/
structure StreamConfig (V : Type) where
  /-- The JSON text of a value, if it can be encoded. -/
  encodeJson : V → Option JsString
  maxSendBytes : ℕ
  keepAliveMs : ℕ
  /-- The iterator has a method `return`. -/
  hasReturn : Bool

/-- The event of a value. -/
def StreamConfig.encode {V : Type} (cfg : StreamConfig V) (value : V) : Option Bytes :=
  (cfg.encodeJson value).bind (fun text => (encodeSSEEvent text none).toOption)

/-! ### The state of a stream -/

/-- How an iterator answers a call of `next`. -/
inductive Answer (V : Type) where
  | yields (value : V)
  | finishes
  /-- It throws a service error or something else. -/
  | throws (thrown : Option ServiceError)

/-- Why a context has ended. -/
inductive ContextError where
  | canceled
  | deadlineExceeded
  deriving DecidableEq

/-- What has ended a wait. -/
inductive Winner where
  | message
  | heartbeat
  | context
  deriving DecidableEq

/-- What a pull does behind an enqueued chunk. -/
inductive Task where
  | finish
  | close
  deriving DecidableEq

/-- How far a pull has got. -/
inductive Phase where
  | idle
  /-- The iterator is in a call of `next`. -/
  | calling
  /-- The answer to a call of `next` is waited for. -/
  | racing (call : ℕ)
  /-- The wait has been resolved. -/
  | woken (call : ℕ) (winner : Winner)
  /-- The wait has been rejected. -/
  | rejected (thrown : Option ServiceError)
  /-- The answer is taken. -/
  | taking (call : ℕ)
  | tasks (rest : List Task)
  deriving DecidableEq

structure ServerStream (V : Type) where
  /-- Why the context of the stream has ended. -/
  err : Option ContextError
  /-- The body can be enqueued into. -/
  isOpen : Bool
  finished : Bool
  /-- The call of `next` whose answer has not been taken. -/
  pending : Option ℕ
  /-- The calls of `next`, with their answers. -/
  calls : List (Option (Answer V))
  phase : Phase
  /-- The calls of `return`, each with the state of the context before it. Nothing depends on
  them. -/
  returns : List (Option ContextError)
  chunks : List Chunk

/-- A new stream, with the opening comment. -/
def newServerStream (V : Type) : ServerStream V :=
  ⟨none, true, false, none, [], .idle, [], [.comment]⟩

namespace ServerStream

variable {V : Type}

/-- The context of the stream is canceled, unless it has ended. -/
def cancelStream (s : ServerStream V) : ServerStream V :=
  { s with err := some (s.err.getD .canceled) }

/-- The iterator is asked to clean up. -/
def returnIterator (cfg : StreamConfig V) (s : ServerStream V) : ServerStream V :=
  if cfg.hasReturn then { s with returns := s.returns ++ [s.err] } else s

/-- The stream is over for the iterator. -/
def finish (cfg : StreamConfig V) (s : ServerStream V) : ServerStream V :=
  if s.finished then s
  else returnIterator cfg { s.cancelStream with finished := true, pending := none }

/-- A chunk is enqueued; when the consumer has left, the stream is finished. -/
def enqueue (cfg : StreamConfig V) (s : ServerStream V) (chunk : Chunk)
    (enqueued failed : List Task) : ServerStream V :=
  if s.isOpen then { s with chunks := s.chunks ++ [chunk], phase := .tasks enqueued }
  else { s.finish cfg with phase := .tasks (.close :: failed) }

/-- An error event is enqueued, and the stream is closed behind it. -/
def emitError (cfg : StreamConfig V) (s : ServerStream V) (error : ServiceError) :
    ServerStream V :=
  s.enqueue cfg (.failed error) [.finish, .close] []

/-- The stream ends without a terminal event. -/
def leave (cfg : StreamConfig V) (s : ServerStream V) : ServerStream V :=
  { s.finish cfg with phase := .tasks [.close] }

/-- A pull begins. -/
def pull (cfg : StreamConfig V) (s : ServerStream V) : ServerStream V :=
  if s.finished then s
  else
    match s.err with
    | some .deadlineExceeded => s.emitError cfg deadlineServiceError
    | some .canceled => s.leave cfg
    | none =>
        match s.pending with
        | none => { s with calls := s.calls ++ [none], phase := .calling }
        | some call => { s with phase := .racing call }

/-- The call of `next` throws. -/
def nextThrows (cfg : StreamConfig V) (s : ServerStream V) (thrown : Option ServiceError) :
    ServerStream V :=
  { s with calls := s.calls.set (s.calls.length - 1) (some (.throws thrown)) }.emitError cfg
    (asServiceError thrown)

/-- The call of `next` returns a promise. -/
def nextReturns (s : ServerStream V) : ServerStream V :=
  { s with pending := some (s.calls.length - 1), phase := .racing (s.calls.length - 1) }

/-- A pull goes on behind a wait. -/
def wake (cfg : StreamConfig V) (s : ServerStream V) (call : ℕ) (winner : Winner) :
    ServerStream V :=
  if winner = .heartbeat then s.enqueue cfg .comment [] []
  else if winner = .context ∨ s.err.isSome = true then
    if s.err = some .deadlineExceeded then s.emitError cfg deadlineServiceError else s.leave cfg
  else { s with phase := .taking call }

/-- A pull goes on with the answer to a call of `next`. -/
def take (cfg : StreamConfig V) (s : ServerStream V) (answer : Answer V) : ServerStream V :=
  match answer with
  -- the pull is rejected, and the body fails
  | .throws _ => { s with isOpen := false, phase := .idle }
  | .finishes => { s with pending := none }.enqueue cfg .ended [.close, .finish] [.finish]
  | .yields value =>
      match cfg.encode value with
      | none => { s with pending := none }.emitError cfg internalServiceError
      | some bytes =>
          if cfg.maxSendBytes < bytes.length then
            { s with pending := none }.emitError cfg (sendLimitError bytes.length cfg.maxSendBytes)
          else { s with pending := none }.enqueue cfg (.message bytes) [] []

/-- A pull does what is left to do. -/
def runTask (cfg : StreamConfig V) (s : ServerStream V) : List Task → ServerStream V
  | [] => { s with phase := .idle }
  | .finish :: rest => { s.finish cfg with phase := .tasks rest }
  | .close :: rest => { s with isOpen := false, phase := .tasks rest }

/-- The consumer cancels the body. -/
def cancel (cfg : StreamConfig V) (s : ServerStream V) : ServerStream V :=
  { s with isOpen := false }.finish cfg

end ServerStream

/-! ### Steps -/

/-- A step of a stream. -/
inductive StreamStep {V : Type} (cfg : StreamConfig V) : ServerStream V → ServerStream V → Prop where
  | pulls {s : ServerStream V} (hphase : s.phase = .idle) : StreamStep cfg s (s.pull cfg)
  | nextThrows {s : ServerStream V} (hphase : s.phase = .calling) (thrown : Option ServiceError) :
      StreamStep cfg s (s.nextThrows cfg thrown)
  | nextReturns {s : ServerStream V} (hphase : s.phase = .calling) : StreamStep cfg s s.nextReturns
  | answers {s : ServerStream V} {call : ℕ} (hcall : s.calls[call]? = some none)
      (hphase : s.phase = .calling → call + 1 < s.calls.length) (answer : Answer V) :
      StreamStep cfg s { s with calls := s.calls.set call (some answer) }
  | messageReady {s : ServerStream V} {call : ℕ} (hphase : s.phase = .racing call)
      (hanswer : s.calls[call]? = some (some .finishes) ∨
        ∃ value, s.calls[call]? = some (some (.yields value))) :
      StreamStep cfg s { s with phase := .woken call .message }
  | messageFailed {s : ServerStream V} {call : ℕ} {thrown : Option ServiceError}
      (hphase : s.phase = .racing call) (hanswer : s.calls[call]? = some (some (.throws thrown))) :
      StreamStep cfg s { s with phase := .rejected thrown }
  | heartbeat {s : ServerStream V} {call : ℕ} (hphase : s.phase = .racing call)
      (hkeepAlive : 0 < cfg.keepAliveMs) :
      StreamStep cfg s { s with phase := .woken call .heartbeat }
  | contextEnds {s : ServerStream V} {call : ℕ} (hphase : s.phase = .racing call)
      (herr : s.err.isSome = true) :
      StreamStep cfg s { s with phase := .woken call .context }
  | wakes {s : ServerStream V} {call : ℕ} {winner : Winner} (hphase : s.phase = .woken call winner) :
      StreamStep cfg s (s.wake cfg call winner)
  | rejects {s : ServerStream V} {thrown : Option ServiceError} (hphase : s.phase = .rejected thrown) :
      StreamStep cfg s (s.emitError cfg (asServiceError thrown))
  | takes {s : ServerStream V} {call : ℕ} {answer : Answer V} (hphase : s.phase = .taking call)
      (hanswer : s.calls[call]? = some (some answer)) :
      StreamStep cfg s (s.take cfg answer)
  | runsTask {s : ServerStream V} {rest : List Task} (hphase : s.phase = .tasks rest) :
      StreamStep cfg s (s.runTask cfg rest)
  /-- The request is canceled or its deadline has passed. -/
  | cancels {s : ServerStream V} (herr : s.err = none) (err : ContextError) :
      StreamStep cfg s { s with err := some err }
  /-- The consumer cancels the body. -/
  | leaves {s : ServerStream V} : StreamStep cfg s (s.cancel cfg)

end Server
