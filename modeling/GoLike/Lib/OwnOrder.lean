import GoLike.Lib.Json

/-!
# The order of properties

An object lists its own properties in a fixed order: those whose names are array indices come
first, by their number, and the others follow in the order in which they were set. A text that
is written from an object lists the properties in this order, and the object that is read from
the text is set up in the order of the text and lists its properties in its own order again.
-/

namespace OwnOrder

variable {α : Type}

/-- The number of a name that is an array index. -/
def arrayIndex? (property : JsString) : Option ℕ :=
  if property.isDecimal && property.decimalValue < 4294967295 then some property.decimalValue
  else none

/-- The name of the property is an array index. -/
def isIndex (p : JsString × α) : Bool := (arrayIndex? p.1).isSome

/-- The number of the name, if it is an array index. -/
def indexValue (p : JsString × α) : ℕ := (arrayIndex? p.1).getD 0

/-- Properties with distinct names, set in the order of the list, as the object lists them. -/
def ownOrder (properties : List (JsString × α)) : List (JsString × α) :=
  (properties.filter isIndex).insertionSort (fun p q => indexValue p ≤ indexValue q) ++
    properties.filter (fun p => !isIndex p)

theorem ownOrder_perm (properties : List (JsString × α)) :
  (ownOrder properties).Perm properties
  := by
  have hsort := List.perm_insertionSort (fun p q => indexValue p ≤ indexValue q)
    (properties.filter isIndex)
  exact (hsort.append_right _).trans (List.filter_append_perm isIndex properties)

theorem mem_ownOrder {properties : List (JsString × α)} {p : JsString × α} :
  p ∈ ownOrder properties ↔ p ∈ properties
  := (ownOrder_perm properties).mem_iff

/-- An object that is set up in its own order lists its properties in the same order. -/
theorem ownOrder_ownOrder (properties : List (JsString × α)) :
  ownOrder (ownOrder properties) = ownOrder properties
  := by
  have total : Std.Total (fun p q : JsString × α => indexValue p ≤ indexValue q) :=
    ⟨fun p q => le_total (indexValue p) (indexValue q)⟩
  have trans : IsTrans (JsString × α) (fun p q => indexValue p ≤ indexValue q) :=
    ⟨fun p q r => le_trans (a := indexValue p) (b := indexValue q) (c := indexValue r)⟩
  let indices := (properties.filter isIndex).insertionSort (fun p q => indexValue p ≤ indexValue q)
  let others := properties.filter (fun p => !isIndex p)
  have hindices : ∀ p ∈ indices, isIndex p = true := by
    intro p hp
    rw [List.mem_insertionSort] at hp
    exact (List.mem_filter.mp hp).2
  have hothers : ∀ p ∈ others, isIndex p = false := by
    intro p hp
    have hnot := (List.mem_filter.mp hp).2
    simpa using hnot
  have hfirst : (indices ++ others).filter isIndex = indices := by
    rw [List.filter_append, List.filter_eq_self.mpr hindices, List.filter_eq_nil_iff.mpr,
      List.append_nil]
    intro p hp
    rw [hothers p hp]
    exact Bool.false_ne_true
  have hsecond : (indices ++ others).filter (fun p => !isIndex p) = others := by
    rw [List.filter_append, List.filter_eq_nil_iff.mpr, List.nil_append, List.filter_eq_self.mpr]
    · intro p hp
      rw [hothers p hp]
      rfl
    · intro p hp
      rw [hindices p hp]
      exact Bool.false_ne_true
  have hsorted : indices.insertionSort (fun p q => indexValue p ≤ indexValue q) = indices := by
    apply List.Pairwise.insertionSort_eq
    exact List.pairwise_insertionSort _ _
  have hown : ownOrder properties = indices ++ others := rfl
  rw [hown]
  unfold ownOrder
  rw [hfirst, hsecond, hsorted]

/-- Properties of which none is an array index are listed as they were set. -/
theorem ownOrder_eq_self {properties : List (JsString × α)}
    (h : ∀ p ∈ properties, arrayIndex? p.1 = none) :
  ownOrder properties = properties
  := by
  have hnone : ∀ p ∈ properties, isIndex p = false := by
    intro p hp
    rw [isIndex, h p hp]
    rfl
  unfold ownOrder
  rw [List.filter_eq_nil_iff.mpr, List.filter_eq_self.mpr]
  · rfl
  · intro p hp
    rw [hnone p hp]
    rfl
  · intro p hp
    rw [hnone p hp]
    exact Bool.false_ne_true

end OwnOrder

namespace Json

open OwnOrder

mutual

/-- The document that is read from the text that is written of a document whose objects have
distinct names. -/
def reread : Json → Json
  | .array elements => .array (rereadElements elements)
  | .object properties => .object (ownOrder (rereadProperties properties))
  | .null => .null
  | .bool b => .bool b
  | .number x => .number x
  | .string s => .string s

def rereadElements : List Json → List Json
  | [] => []
  | element :: rest => reread element :: rereadElements rest

def rereadProperties : List (JsString × Json) → List (JsString × Json)
  | [] => []
  | (property, value) :: rest => (property, reread value) :: rereadProperties rest

end

theorem rereadElements_eq_self {elements : List Json} (h : ∀ j ∈ elements, reread j = j) :
  rereadElements elements = elements
  := by
  induction elements with
  | nil => rfl
  | cons element rest ih =>
      rw [rereadElements, h element List.mem_cons_self,
        ih (fun j hj => h j (List.mem_cons_of_mem _ hj))]

theorem rereadProperties_eq_self {properties : List (JsString × Json)}
    (h : ∀ p ∈ properties, reread p.2 = p.2) :
  rereadProperties properties = properties
  := by
  induction properties with
  | nil => rfl
  | cons p rest ih =>
      obtain ⟨property, value⟩ := p
      rw [rereadProperties, h (property, value) List.mem_cons_self,
        ih (fun q hq => h q (List.mem_cons_of_mem _ hq))]

/-- An object is read as it was written when its properties are in its own order and so are
those of its values. -/
theorem reread_object {properties : List (JsString × Json)}
    (hown : ownOrder properties = properties) (h : ∀ p ∈ properties, reread p.2 = p.2) :
  reread (.object properties) = .object properties
  := by
  rw [reread, rereadProperties_eq_self h, hown]

end Json
