import GoLike.Config.Value

/-!
# Placeholders

A placeholder in a string names a string of the root by its dotted path, with an explicit default
for a path that is absent. The string that is named and the default may contain placeholders
themselves. The keys that are being expanded are kept on a stack; since a key that is expanded is
not on it, there are fewer paths left with every reference, and a default is shorter than the string
that it stands in.
-/

namespace Config

open JsString

/-- Why a placeholder cannot be resolved. -/
inductive PlaceholderFailure where
  | cycle
  | invalid
  | missing
  | nonString
  deriving DecidableEq

/-- The error of a failure. -/
def placeholderFailure : PlaceholderFailure → TypeError
  | .cycle => typeError "configuration placeholder cycle detected"
  | .missing => typeError "configuration placeholder is missing"
  | .nonString => typeError "configuration placeholder must reference a string"
  | .invalid => typeError "invalid configuration placeholder"

def dot : JsString := ofString "."

/-- The segments of a dotted key. -/
def capturePath (key : JsString) : Except TypeError (List JsString) :=
  if key.isEmpty = true ∨ key.isWellFormed = false then
    .error (typeError "invalid configuration key")
  else if (key.split dot).any fun segment => segment.isEmpty || isUnsafeKey segment then
    .error (typeError "invalid configuration key")
  else .ok (key.split dot)

/-- The value at a path through objects. -/
def selectValue : ConfigValue → List JsString → Option ConfigValue
  | value, [] => some value
  | .object properties, segment :: path =>
      (Json.property properties segment).bind fun value => selectValue value path
  | _, _ :: _ => none

/-! ### The text of a placeholder -/

/-- The units before the first mark of a placeholder and those behind it. -/
def splitAtMark : List UInt16 → Option (List UInt16 × List UInt16)
  | [] => none
  | [_] => none
  | u :: v :: rest =>
      if u = 36 ∧ v = 123 then some ([], rest)
      else (splitAtMark (v :: rest)).map fun split => (u :: split.1, split.2)

/-- The units before the brace that closes a placeholder and those behind it, at a depth of
placeholders within it. -/
def placeholderEnd : ℕ → List UInt16 → Option (List UInt16 × List UInt16)
  | _, [] => none
  | depth, [u] => if u = 125 ∧ depth = 0 then some ([], []) else none
  | depth, u :: v :: rest =>
      if u = 36 ∧ v = 123 then
        (placeholderEnd (depth + 1) rest).map fun split => (u :: v :: split.1, split.2)
      else if u = 125 then
        if depth = 0 then some ([], v :: rest)
        else (placeholderEnd (depth - 1) (v :: rest)).map fun split => (u :: split.1, split.2)
      else (placeholderEnd depth (v :: rest)).map fun split => (u :: split.1, split.2)

structure PlaceholderParts where
  key : JsString
  defaultValue : Option (List UInt16)

/-- The key of a placeholder and its default behind the first colon. -/
def placeholderParts (body : List UInt16) : Except PlaceholderFailure PlaceholderParts :=
  let key := body.takeWhile fun u => u ≠ 58
  if (splitAtMark key).isSome = true ∨ 125 ∈ key then .error .invalid
  else
    match capturePath ⟨key⟩ with
    | .error _ => .error .invalid
    | .ok _ => .ok ⟨⟨key⟩, if 58 ∈ body then some (body.dropWhile fun u => u ≠ 58).tail else none⟩

/-- The first placeholder of a text: what stands before it, its parts and what stands behind it. -/
inductive Placeholder where
  | none
  | invalid
  | some (before : List UInt16) (parts : PlaceholderParts) (rest : List UInt16)

/-- Find the first placeholder of a text. -/
def firstPlaceholder (value : List UInt16) : Placeholder :=
  match splitAtMark value with
  | .none => .none
  | .some (before, inner) =>
      match placeholderEnd 0 inner with
      | .none => .invalid
      | .some (body, rest) =>
          match placeholderParts body with
          | .error _ => .invalid
          | .ok parts => .some before parts rest

theorem length_splitAtMark {value before inner : List UInt16}
    (h : splitAtMark value = some (before, inner)) :
  inner.length < value.length
  := by
  induction value using splitAtMark.induct generalizing before with
  | case1 | case2 => cases h
  | case3 u v rest hmark =>
      rw [splitAtMark, if_pos hmark] at h
      cases h
      simp only [List.length_cons]
      omega
  | case4 u v rest hmark ih =>
      rw [splitAtMark, if_neg hmark, Option.map_eq_some_iff] at h
      obtain ⟨split, hsplit, heq⟩ := h
      cases heq
      have hlt := ih hsplit
      simp only [List.length_cons] at hlt ⊢
      omega

theorem length_placeholderEnd {depth : ℕ} {inner body rest : List UInt16}
    (h : placeholderEnd depth inner = some (body, rest)) :
  body.length + rest.length < inner.length
  := by
  induction depth, inner using placeholderEnd.induct generalizing body with
  | case1 depth => cases h
  | case2 depth u hclose =>
      rw [placeholderEnd, if_pos hclose] at h
      cases h
      exact Nat.one_pos
  | case3 depth u hclose =>
      rw [placeholderEnd, if_neg hclose] at h
      cases h
  | case4 depth u v rest' hmark ih =>
      rw [placeholderEnd, if_pos hmark, Option.map_eq_some_iff] at h
      obtain ⟨split, hsplit, heq⟩ := h
      cases heq
      have hlt := ih hsplit
      simp only [List.length_cons] at hlt ⊢
      omega
  | case5 v rest' hmark =>
      rw [placeholderEnd, if_neg hmark, if_pos rfl, if_pos rfl] at h
      cases h
      simp only [List.length_cons, List.length_nil]
      omega
  | case6 depth v rest' hmark hdepth ih =>
      rw [placeholderEnd, if_neg hmark, if_pos rfl, if_neg hdepth, Option.map_eq_some_iff] at h
      obtain ⟨split, hsplit, heq⟩ := h
      cases heq
      have hlt := ih hsplit
      simp only [List.length_cons] at hlt ⊢
      omega
  | case7 depth u v rest' hmark hclose ih =>
      rw [placeholderEnd, if_neg hmark, if_neg hclose, Option.map_eq_some_iff] at h
      obtain ⟨split, hsplit, heq⟩ := h
      cases heq
      have hlt := ih hsplit
      simp only [List.length_cons] at hlt ⊢
      omega

theorem length_placeholderParts {body text : List UInt16} {parts : PlaceholderParts}
    (h : placeholderParts body = .ok parts) (htext : parts.defaultValue = some text) :
  text.length ≤ body.length
  := by
  rw [placeholderParts] at h
  split at h
  · cases h
  · split at h
    · cases h
    · cases h
      dsimp only at htext
      split at htext
      · cases htext
        rw [List.length_tail]
        have hle := (List.dropWhile_suffix (l := body) fun u => decide (u ≠ 58)).length_le
        omega
      · cases htext

/-- What stands behind a placeholder is shorter than the text, and so is a default in it. -/
theorem length_firstPlaceholder {value before rest : List UInt16} {parts : PlaceholderParts}
    (h : firstPlaceholder value = .some before parts rest) :
  rest.length < value.length ∧
    ∀ text, parts.defaultValue = some text → text.length < value.length
  := by
  rw [firstPlaceholder] at h
  split at h
  · cases h
  · rename_i before' inner hmark
    split at h
    · cases h
    · rename_i body rest' hend
      split at h
      · cases h
      · rename_i parts' hparts
        cases h
        have hinner := length_splitAtMark hmark
        have hbody := length_placeholderEnd hend
        refine ⟨by omega, ?_⟩
        intro text htext
        have hdefault := length_placeholderParts hparts htext
        omega

/-! ### Paths -/

mutual

/-- The paths of the values within a value. -/
def paths : ConfigValue → List (List JsString)
  | .object properties => propertyPaths properties
  | .null | .bool _ | .number _ | .string _ | .array _ => []

def propertyPaths : ConfigObject → List (List JsString)
  | [] => []
  | (key, value) :: properties =>
      [key] :: (paths value).map (fun path => key :: path) ++ propertyPaths properties

end

theorem mem_propertyPaths {properties : ConfigObject} {segment : JsString} {value : ConfigValue}
    (h : Json.property properties segment = some value) :
  [segment] ∈ propertyPaths properties ∧
    ∀ path ∈ paths value, segment :: path ∈ propertyPaths properties
  := by
  induction properties with
  | nil => cases h
  | cons p properties ih =>
      obtain ⟨key, value'⟩ := p
      rw [Json.property, List.find?_cons] at h
      by_cases hkey : key = segment
      · simp only [hkey, decide_true, Option.map_some, Option.some.injEq] at h
        subst hkey
        subst h
        rw [propertyPaths]
        refine ⟨List.mem_append_left _ List.mem_cons_self, ?_⟩
        intro path hpath
        apply List.mem_append_left
        exact List.mem_cons_of_mem _ (List.mem_map_of_mem hpath)
      · simp only [hkey, decide_false] at h
        obtain ⟨hsegment, hpaths⟩ := ih h
        rw [propertyPaths]
        exact ⟨List.mem_append_right _ hsegment, fun path hpath =>
          List.mem_append_right _ (hpaths path hpath)⟩

/-- A path at which a value is found is one of the paths. -/
theorem mem_paths {value selected : ConfigValue} {path : List JsString} (hne : path ≠ [])
    (h : selectValue value path = some selected) :
  path ∈ paths value
  := by
  induction path generalizing value with
  | nil => exact absurd rfl hne
  | cons segment path ih =>
      cases value with
      | object properties =>
          rw [selectValue, Option.bind_eq_some_iff] at h
          obtain ⟨next, hnext, hselected⟩ := h
          obtain ⟨hsegment, hpaths⟩ := mem_propertyPaths hnext
          rw [paths]
          cases path with
          | nil => exact hsegment
          | cons segment' path => exact hpaths _ (ih (List.cons_ne_nil _ _) hselected)
      | _ => cases h

theorem split_injective :
  Function.Injective fun key : JsString => key.split dot
  := by
  intro key key' h
  have hdot : dot.units ≠ [] := by decide
  have hjoin := congrArg (joinWith dot) h
  rwa [joinWith_split key hdot, joinWith_split key' hdot] at hjoin

/-- The number of paths that are not on the stack. -/
def unvisited (root : ConfigObject) (stack : List JsString) : ℕ :=
  ((propertyPaths root).filter fun path => path ∉ stack.map fun key => key.split dot).length

/-- A reference to a key that is not on the stack leaves fewer paths. -/
theorem unvisited_lt {root : ConfigObject} {stack : List JsString} {key : JsString}
    {path : List JsString} {value : ConfigValue} (hpath : capturePath key = .ok path)
    (hselected : selectValue (.object root) path = some value) (hkey : key ∉ stack) :
  unvisited root (stack ++ [key]) < unvisited root stack
  := by
  have hsplit : path = key.split dot := by
    rw [capturePath] at hpath
    split at hpath
    · cases hpath
    · split at hpath
      · cases hpath
      · cases hpath
        rfl
  have hne : path ≠ [] := by
    rw [hsplit]
    exact splitUnits_ne_nil _ _ _ _
  have hmem : path ∈ propertyPaths root := mem_paths hne hselected
  have hfresh : path ∉ stack.map fun key => key.split dot := by
    rw [hsplit]
    intro h
    obtain ⟨key', hkey', heq⟩ := List.mem_map.1 h
    exact hkey (split_injective heq ▸ hkey')
  have hfilter : (propertyPaths root).filter
      (fun p => p ∉ (stack ++ [key]).map fun key => key.split dot) =
      ((propertyPaths root).filter fun p => p ∉ stack.map fun key => key.split dot).filter
        fun p => p ≠ path := by
    rw [List.filter_filter]
    apply List.filter_congr
    intro p _
    rw [List.map_append, List.map_singleton, ← hsplit]
    simp only [List.mem_append, List.mem_singleton, not_or, Bool.decide_and]
    rw [Bool.and_comm]
  rw [unvisited, hfilter]
  apply List.length_filter_lt_length_iff_exists.2
  refine ⟨path, List.mem_filter.2 ⟨hmem, decide_eq_true hfresh⟩, ?_⟩
  simp

/-! ### Resolution -/

mutual

/-- Resolve a referenced string, or the default of a key that is absent. -/
def resolveReference (root : ConfigObject) (parts : PlaceholderParts) (stack : List JsString) :
    Except PlaceholderFailure (List UInt16) :=
  match hpath : capturePath parts.key with
  | .error _ => .error .invalid
  | .ok path =>
      match hselected : selectValue (.object root) path with
      | none =>
          match hdefault : parts.defaultValue with
          | none => .error .missing
          | some text => resolvePlaceholderString root text stack
      | some (.string s) =>
          if hkey : parts.key ∈ stack then .error .cycle
          else resolvePlaceholderString root s.units (stack ++ [parts.key])
      | some _ => .error .nonString
  termination_by
    (unvisited root stack, 2 * (parts.defaultValue.elim 0 List.length) + 1)
  decreasing_by
    · apply Prod.Lex.right
      rw [hdefault]
      exact Nat.lt_succ_self _
    · apply Prod.Lex.left
      exact unvisited_lt hpath hselected hkey

/-- Resolve the placeholders of a text, one after the other. -/
def resolvePlaceholderString (root : ConfigObject) (value : List UInt16)
    (stack : List JsString) : Except PlaceholderFailure (List UInt16) :=
  match hfirst : firstPlaceholder value with
  | .none => .ok value
  | .invalid => .error .invalid
  | .some before parts rest => do
      let referenced ← resolveReference root parts stack
      let others ← resolvePlaceholderString root rest stack
      .ok (before ++ referenced ++ others)
  termination_by (unvisited root stack, 2 * value.length)
  decreasing_by
    · apply Prod.Lex.right
      obtain ⟨-, hdefault⟩ := length_firstPlaceholder hfirst
      cases htext : parts.defaultValue with
      | none =>
          have hrest := (length_firstPlaceholder hfirst).1
          rw [Option.elim_none]
          omega
      | some text =>
          have hlt := hdefault text htext
          rw [Option.elim_some]
          omega
    · apply Prod.Lex.right
      have hrest := (length_firstPlaceholder hfirst).1
      omega

end

/-! ### Documents -/

mutual

/-- Resolve the strings of a value. The entries of an object have distinct names in its own order, so
they stay as they are when they are set one by one in a new object. -/
def resolvePlaceholderValue (root : ConfigObject) (stack : List JsString) :
    ConfigValue → Except PlaceholderFailure ConfigValue
  | .string s => (resolvePlaceholderString root s.units stack).map fun us => .string ⟨us⟩
  | .array elements => (resolveElements root stack elements).map .array
  | .object properties => (resolveProperties root stack properties).map .object
  | .null => .ok .null
  | .bool b => .ok (.bool b)
  | .number x => .ok (.number x)
  termination_by structural value => value

def resolveElements (root : ConfigObject) (stack : List JsString) :
    List ConfigValue → Except PlaceholderFailure (List ConfigValue)
  | [] => .ok []
  | element :: elements => do
      let resolved ← resolvePlaceholderValue root stack element
      let others ← resolveElements root stack elements
      .ok (resolved :: others)
  termination_by structural elements => elements

def resolveProperties (root : ConfigObject) (stack : List JsString) :
    ConfigObject → Except PlaceholderFailure ConfigObject
  | [] => .ok []
  | (key, value) :: properties => do
      let resolved ← resolvePlaceholderValue root stack value
      let others ← resolveProperties root stack properties
      .ok ((key, resolved) :: others)
  termination_by structural properties => properties

end

/-- Resolve the placeholders of a document. -/
def placeholderResolver (value : ConfigObject) : Except TypeError ConfigObject :=
  match resolvePlaceholderValue value [] (.object value) with
  | .ok (.object resolved) => .ok resolved
  | .ok _ => .error (placeholderFailure .invalid)
  | .error failure => .error (placeholderFailure failure)

end Config
