import GoLike.Lib.Utf8
import GoLike.Store.Document

/-!
# The protocol of the etcd configuration source

The source reads one key of etcd over the JSON gateway. A response to a range request
carries the revision of the store and what the key holds, and a watch is answered with a
frame on each line.
-/

open Store JsString

namespace Config.Etcd

/-! ### Failures -/

inductive Operation where
  | range
  | watch
  deriving DecidableEq

/-- What a request or a stream throws. -/
inductive Thrown where
  | http (operation : Operation) (status : ℕ)
  | protocol (operation : Operation)
  | transport (operation : Operation)
  deriving DecidableEq

/-- The failure is one of transport, overload, timeout or of the server. -/
def retryable : Thrown → Bool
  | .transport _ => true
  | .http _ status => status = 408 ∨ status = 425 ∨ status = 429 ∨ status ≥ 500
  | .protocol _ => false

/-! ### Revisions -/

/-- A revision, as etcd writes it. -/
structure Revision where
  text : JsString
  decimal : text.isDecimal = true

/-- The number of a revision. -/
def Revision.value (r : Revision) : ℕ := r.text.decimalValue

/-- The revision of a number. -/
def Revision.ofNat (n : ℕ) : Revision := ⟨JsString.ofNat n, isDecimal_ofNat n⟩

@[simp]
theorem Revision.value_ofNat (n : ℕ) :
  (Revision.ofNat n).value = n
  := decimalValue_ofNat n

/-- The property of a value that may be missing, and need not be an object. -/
def property (value : Option Json) (key : String) : Option Json :=
  match value with
  | some (.object properties) => Json.property properties (name key)
  | _ => none

/-- Parse a revision. -/
def revision (value : Option Json) (operation : Operation) : Except Thrown Revision :=
  match value with
  | some (.string text) =>
      if h : text.isDecimal = true then .ok ⟨text, h⟩ else .error (.protocol operation)
  | _ => .error (.protocol operation)

/-- The revision in the header of a response. -/
def responseRevision (value : Option Json) (operation : Operation) : Except Thrown Revision :=
  revision (property (property value "header") "revision") operation

/-! ### Base64 -/

/-- ASCII white space. -/
def isWhitespace (u : UInt16) : Bool := [9, 10, 12, 13, 32].contains u

/-- The units of a base64 text without the padding that completes a group of four. -/
def withoutPadding (units : List UInt16) : List UInt16 :=
  if units.length % 4 = 0 then units.take (units.length - Base64.paddingOf units) else units

/-- Decode a base64 text, whose padding may be missing. -/
def atob (text : JsString) : Option (List UInt8) :=
  let units := withoutPadding (text.units.filter (fun u => !isWhitespace u))
  if units.length % 4 = 1 ∨ ¬ units.all Base64.Base64Alphabet.contains then none
  else
    let groups := units ++ List.replicate ((4 - units.length % 4) % 4) Base64.pad
    some ((Base64.decodeUnits groups).take (units.length * 6 / 8))

/-- Decode a field of a response. -/
def decodeBase64 (value : Option Json) (operation : Operation) : Except Thrown JsString :=
  match value with
  | some (.string text) =>
      match (atob text).bind decodeUtf8 with
      | some decoded => .ok decoded
      | none => .error (.protocol operation)
  | _ => .error (.protocol operation)

/-- A text without padding. -/
example : atob (ofString "eyJh") = some [123, 34, 97] ∧ atob (ofString "eyI") = some [123, 34] ∧
    atob (ofString "e===") = none := by decide

/-! ### Responses -/

structure RangeResult where
  text : Option JsString
  revision : Revision

/-- Parse the response to a range request. -/
def parseRangeResponse (value : Json) : Except Thrown RangeResult := do
  let current ← responseRevision (some value) .range
  match property (some value) "kvs" with
  | none => return ⟨none, current⟩
  | some (.array []) => return ⟨none, current⟩
  | some (.array [entry]) =>
      return ⟨some (← decodeBase64 (property (some entry) "value") .range), current⟩
  | some _ => throw (.protocol .range)

/-- What a frame of a watch tells. -/
inductive WatchOutcome where
  | changed (revision : Revision)
  | compacted

/-- Parse a line of a watch. -/
def parseWatchFrame (line : JsonText) : Except Thrown (Option WatchOutcome) := do
  match property line.document "result" with
  | none => throw (.protocol .watch)
  | some result =>
      if property (some result) "canceled" = some (.bool true) then
        match property (some result) "compact_revision" with
        | some (.string compact) =>
            if 0 < (← revision (some (.string compact)) .watch).value then return some .compacted
            else throw (.protocol .watch)
        | _ => throw (.protocol .watch)
      else
        match property (some result) "events" with
        | some (.array (_ :: _)) =>
            return some (.changed (← responseRevision (some result) .watch))
        | none | some (.array []) =>
            if property (some result) "created" = some (.bool true) ∨
                property (some result) "header" ≠ none then
              return none
            else throw (.protocol .watch)
        | some _ => throw (.protocol .watch)

/-! ### What parsing throws -/

theorem revision_error {value : Option Json} {operation : Operation} {e : Thrown}
    (h : revision value operation = .error e) :
  e = .protocol operation
  := by
  unfold revision at h
  split at h
  · split at h
    · cases h
    · cases h
      rfl
  · cases h
    rfl

theorem decodeBase64_error {value : Option Json} {operation : Operation} {e : Thrown}
    (h : decodeBase64 value operation = .error e) :
  e = .protocol operation
  := by
  unfold decodeBase64 at h
  split at h
  · split at h
    · cases h
    · cases h
      rfl
  · cases h
    rfl

/-- What fails after `f` fails in `f` or after it. -/
theorem error_of_bind {α β : Type} {x : Except Thrown α} {f : α → Except Thrown β} {e : Thrown}
    (h : (x >>= f) = .error e) :
  x = .error e ∨ ∃ a, x = .ok a ∧ f a = .error e
  := by
  cases x with
  | error e' =>
      cases h
      exact .inl rfl
  | ok a => exact .inr ⟨a, rfl, h⟩

theorem ok_of_bind {α β : Type} {x : Except Thrown α} {f : α → Except Thrown β} {b : β}
    (h : (x >>= f) = .ok b) :
  ∃ a, x = .ok a ∧ f a = .ok b
  := by
  cases x with
  | error e => cases h
  | ok a => exact ⟨a, rfl, h⟩

/-- A range response that is not read breaks the protocol. -/
theorem parseRangeResponse_error {value : Json} {e : Thrown}
    (h : parseRangeResponse value = .error e) :
  e = .protocol .range
  := by
  rw [parseRangeResponse] at h
  obtain h | ⟨current, -, h⟩ := error_of_bind h
  · exact revision_error h
  · split at h
    · cases h
    · cases h
    · obtain h | ⟨text, -, h⟩ := error_of_bind h
      · exact decodeBase64_error h
      · cases h
    · cases h
      rfl

end Config.Etcd
