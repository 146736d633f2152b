import GoLike.Lib.JsNumber
import GoLike.Lib.JsString

/-!
# JSON documents

A document is the tree that parsing a JSON text yields, its objects with their properties
in order. A text itself is represented by what its readers look at: whether it is a
non-empty well-formed string, and the document that parsing it yields, if it yields one.
Printing a document gives a text that parses to this document.
-/

/-- A JSON document. -/
inductive Json where
  | null
  | bool (b : Bool)
  | number (x : JsNumber)
  | string (s : JsString)
  | array (elements : List Json)
  | object (properties : List (JsString × Json))

/-- The value of a property among those of an object. -/
def Json.property (properties : List (JsString × Json)) (name : JsString) : Option Json :=
  (properties.find? (fun p => p.1 = name)).map Prod.snd

/-- The document, if it is a string. -/
def Json.asString : Json → Option JsString
  | .string s => some s
  | _ => none

namespace Json

mutual

/-- Whether two documents are the same. -/
def beq : Json → Json → Bool
  | .null, .null => true
  | .bool a, .bool b => a = b
  | .number x, .number y => x = y
  | .string s, .string t => s = t
  | .array as, .array bs => beqElements as bs
  | .object ps, .object qs => beqProperties ps qs
  | _, _ => false

def beqElements : List Json → List Json → Bool
  | [], [] => true
  | a :: as, b :: bs => beq a b && beqElements as bs
  | _, _ => false

def beqProperties : List (JsString × Json) → List (JsString × Json) → Bool
  | [], [] => true
  | (k, a) :: ps, (l, b) :: qs => k = l && beq a b && beqProperties ps qs
  | _, _ => false

end

mutual

theorem beq_iff : ∀ a b : Json, beq a b = true ↔ a = b
  | .null, b => by
      cases b with
      | _ => simp [beq]
  | .bool x, b => by
      cases b with
      | _ => simp [beq]
  | .number x, b => by
      cases b with
      | _ => simp [beq]
  | .string s, b => by
      cases b with
      | _ => simp [beq]
  | .array as, b => by
      cases b with
      | array bs => simp [beq, beqElements_iff as bs]
      | _ => simp [beq]
  | .object ps, b => by
      cases b with
      | object qs => simp [beq, beqProperties_iff ps qs]
      | _ => simp [beq]

theorem beqElements_iff : ∀ as bs : List Json, beqElements as bs = true ↔ as = bs
  | [], bs => by
      cases bs with
      | nil | cons => simp [beqElements]
  | a :: as, bs => by
      cases bs with
      | nil => simp [beqElements]
      | cons b bs => simp [beqElements, beq_iff a b, beqElements_iff as bs]

theorem beqProperties_iff :
    ∀ ps qs : List (JsString × Json), beqProperties ps qs = true ↔ ps = qs
  | [], qs => by
      cases qs with
      | nil | cons => simp [beqProperties]
  | (k, a) :: ps, qs => by
      cases qs with
      | nil => simp [beqProperties]
      | cons q qs =>
          obtain ⟨l, b⟩ := q
          simp [beqProperties, beq_iff a b, beqProperties_iff ps qs, and_assoc]

end

instance : DecidableEq Json := fun a b => decidable_of_iff (beq a b = true) (beq_iff a b)

end Json

/-- A text, up to what JSON readers make of it. -/
structure JsonText where
  /-- The text is not empty and contains no lone surrogate. -/
  exact : Bool
  /-- The document the text parses to; `none` when parsing it throws. -/
  document : Option Json
  deriving DecidableEq

/-- The text of a document. -/
def Json.stringify (j : Json) : JsonText := ⟨true, some j⟩
