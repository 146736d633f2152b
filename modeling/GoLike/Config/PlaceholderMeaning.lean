import GoLike.Config.Placeholders
import GoLike.Lib.Fallible

/-!
# What placeholders mean

A run of the resolver follows the texts that placeholders stand for. It fails with a cycle where it
comes to a reference to a key that is being expanded, and it returns what a text means, which is said
without a stack: a text that means something never refers to itself while it is expanded, because its
parts have fewer placeholders to expand.
-/

namespace Config

open JsString

/-! ### Runs of the resolver -/

/-- The value that a key names in the root; none when it is absent. -/
def Names (root : ConfigObject) (key : JsString) (value : Option ConfigValue) : Prop :=
  ∃ path, capturePath key = .ok path ∧ selectValue (.object root) path = value

/-- The text that a placeholder stands for, with the keys that are on the stack while it is
expanded. -/
inductive Refers (root : ConfigObject) (parts : PlaceholderParts) (stack : List JsString) :
    List JsString → List UInt16 → Prop
  | reference {s : JsString} (h : Names root parts.key (some (.string s)))
      (hkey : parts.key ∉ stack) : Refers root parts stack (stack ++ [parts.key]) s.units
  | default {text : List UInt16} (h : Names root parts.key none)
      (hdefault : parts.defaultValue = some text) : Refers root parts stack stack text

/-- Why a placeholder stands for no text. -/
inductive Unreferable (root : ConfigObject) (parts : PlaceholderParts) (stack : List JsString) :
    PlaceholderFailure → Prop
  | invalid {error : TypeError} (h : capturePath parts.key = .error error) :
      Unreferable root parts stack .invalid
  | missing (h : Names root parts.key none) (hdefault : parts.defaultValue = none) :
      Unreferable root parts stack .missing
  | nonString {value : ConfigValue} (h : Names root parts.key (some value))
      (hvalue : ∀ s, value ≠ .string s) : Unreferable root parts stack .nonString
  | cycle {s : JsString} (h : Names root parts.key (some (.string s)))
      (hkey : parts.key ∈ stack) : Unreferable root parts stack .cycle

/-- The outcome of a text that is expanded with keys on the stack. -/
inductive Resolves (root : ConfigObject) :
    List UInt16 → List JsString → Except PlaceholderFailure (List UInt16) → Prop
  | plain {value stack} (h : firstPlaceholder value = .none) : Resolves root value stack (.ok value)
  | invalid {value stack} (h : firstPlaceholder value = .invalid) :
      Resolves root value stack (.error .invalid)
  | unreferable {value stack before parts rest failure}
      (h : firstPlaceholder value = .some before parts rest)
      (hparts : Unreferable root parts stack failure) : Resolves root value stack (.error failure)
  | failed {value stack before parts rest stack' text failure}
      (h : firstPlaceholder value = .some before parts rest)
      (hparts : Refers root parts stack stack' text)
      (htext : Resolves root text stack' (.error failure)) :
      Resolves root value stack (.error failure)
  | expanded {value stack before parts rest stack' text referenced outcome}
      (h : firstPlaceholder value = .some before parts rest)
      (hparts : Refers root parts stack stack' text)
      (htext : Resolves root text stack' (.ok referenced))
      (hrest : Resolves root rest stack outcome) :
      Resolves root value stack (outcome.map fun others => before ++ referenced ++ others)

variable {root : ConfigObject}

theorem Names.unique {key : JsString} {value value' : Option ConfigValue}
    (h : Names root key value) (h' : Names root key value') :
  value = value'
  := by
  obtain ⟨path, hpath, hvalue⟩ := h
  obtain ⟨path', hpath', hvalue'⟩ := h'
  rw [hpath] at hpath'
  cases hpath'
  rw [← hvalue, hvalue']

/-- A placeholder stands for one text. -/
theorem Refers.unique {parts : PlaceholderParts} {stack stack₁ stack₂ : List JsString}
    {text₁ text₂ : List UInt16} (h : Refers root parts stack stack₁ text₁)
    (h' : Refers root parts stack stack₂ text₂) :
  stack₁ = stack₂ ∧ text₁ = text₂
  := by
  cases h with
  | reference h hkey =>
      cases h' with
      | reference h' hkey' =>
          cases h.unique h'
          exact ⟨rfl, rfl⟩
      | default h' hdefault' => cases h.unique h'
  | default h hdefault =>
      cases h' with
      | reference h' hkey' => cases h.unique h'
      | default h' hdefault' =>
          rw [hdefault] at hdefault'
          cases hdefault'
          exact ⟨rfl, rfl⟩

/-- A placeholder that stands for a text has no failure of its own. -/
theorem Refers.not_unreferable {parts : PlaceholderParts} {stack stack' : List JsString}
    {text : List UInt16} {failure : PlaceholderFailure} (h : Refers root parts stack stack' text) :
  ¬ Unreferable root parts stack failure
  := by
  intro h'
  cases h with
  | reference h hkey =>
      cases h' with
      | invalid h' =>
          obtain ⟨path, hpath, -⟩ := h
          rw [hpath] at h'
          cases h'
      | missing h' hdefault' => cases h.unique h'
      | nonString h' hvalue =>
          cases h.unique h'
          exact hvalue _ rfl
      | cycle h' hkey' => exact hkey hkey'
  | default h hdefault =>
      cases h' with
      | invalid h' =>
          obtain ⟨path, hpath, -⟩ := h
          rw [hpath] at h'
          cases h'
      | missing h' hdefault' =>
          rw [hdefault] at hdefault'
          cases hdefault'
      | nonString h' hvalue | cycle h' hkey' => cases h.unique h'

/-- A placeholder has one failure of its own at most. -/
theorem Unreferable.unique {parts : PlaceholderParts} {stack : List JsString}
    {failure failure' : PlaceholderFailure} (h : Unreferable root parts stack failure)
    (h' : Unreferable root parts stack failure') :
  failure = failure'
  := by
  have hnamed : ∀ {error : TypeError} {value : Option ConfigValue},
      capturePath parts.key = .error error → ¬ Names root parts.key value := by
    rintro error value herror ⟨path, hpath, -⟩
    rw [herror] at hpath
    cases hpath
  cases h with
  | invalid h =>
      cases h' with
      | invalid h' => rfl
      | missing h' _ | nonString h' _ | cycle h' _ => exact absurd h' (hnamed h)
  | missing h hdefault =>
      cases h' with
      | invalid h' => exact absurd h (hnamed h')
      | missing h' _ => rfl
      | nonString h' _ | cycle h' _ => cases h.unique h'
  | nonString h hvalue =>
      cases h' with
      | invalid h' => exact absurd h (hnamed h')
      | missing h' _ => cases h.unique h'
      | nonString h' _ => rfl
      | cycle h' _ =>
          cases h.unique h'
          exact absurd rfl (hvalue _)
  | cycle h hkey =>
      cases h' with
      | invalid h' => exact absurd h (hnamed h')
      | missing h' _ => cases h.unique h'
      | nonString h' hvalue =>
          cases h.unique h'
          exact absurd rfl (hvalue _)
      | cycle h' _ => rfl

/-- A placeholder is resolved as the text that it stands for, or fails. -/
theorem resolveReference_cases (parts : PlaceholderParts) (stack : List JsString) :
  (∃ failure, Unreferable root parts stack failure ∧
    resolveReference root parts stack = .error failure) ∨
  ∃ stack' text, Refers root parts stack stack' text ∧
    resolveReference root parts stack = resolvePlaceholderString root text stack'
  := by
  fun_cases resolveReference root parts stack with
  | case1 error hpath => exact .inl ⟨_, .invalid hpath, rfl⟩
  | case2 path hpath hselected hdefault =>
      exact .inl ⟨_, .missing ⟨path, hpath, hselected⟩ hdefault, rfl⟩
  | case3 path hpath hselected text hdefault =>
      exact .inr ⟨_, _, .default ⟨path, hpath, hselected⟩ hdefault, rfl⟩
  | case4 path hpath s hselected hkey =>
      exact .inl ⟨_, .cycle ⟨path, hpath, hselected⟩ hkey, rfl⟩
  | case5 path hpath s hselected hkey =>
      exact .inr ⟨_, _, .reference ⟨path, hpath, hselected⟩ hkey, rfl⟩
  | case6 path hpath value hvalue hselected =>
      exact .inl ⟨_, .nonString ⟨path, hpath, hselected⟩ hvalue, rfl⟩

/-- The outcome of a text is that of the resolver. -/
theorem Resolves.eq {value : List UInt16} {stack : List JsString}
    {outcome : Except PlaceholderFailure (List UInt16)} (h : Resolves root value stack outcome) :
  resolvePlaceholderString root value stack = outcome
  := by
  have hreference : ∀ {parts stack stack' text}, Refers root parts stack stack' text →
      resolveReference root parts stack = resolvePlaceholderString root text stack' := by
    intro parts stack stack' text hrefers
    obtain ⟨failure, hfailure, -⟩ | ⟨stack₂, text₂, hrefers₂, heq⟩ :=
      resolveReference_cases parts stack
    · exact absurd hfailure hrefers.not_unreferable
    · obtain ⟨rfl, rfl⟩ := hrefers.unique hrefers₂
      exact heq
  have hunreferable : ∀ {parts stack failure}, Unreferable root parts stack failure →
      resolveReference root parts stack = .error failure := by
    intro parts stack failure hfailure
    obtain ⟨failure', hfailure', heq⟩ | ⟨stack', text, hrefers, -⟩ :=
      resolveReference_cases parts stack
    · rw [hfailure.unique hfailure']
      exact heq
    · exact absurd hfailure hrefers.not_unreferable
  have hstep : ∀ {value : List UInt16} {stack : List JsString} {before parts rest},
      firstPlaceholder value = .some before parts rest →
      resolvePlaceholderString root value stack = (do
        let referenced ← resolveReference root parts stack
        let others ← resolvePlaceholderString root rest stack
        .ok (before ++ referenced ++ others)) := by
    intro value stack before parts rest hfirst
    fun_cases resolvePlaceholderString root value stack with
    | case1 hnone =>
        rw [hnone] at hfirst
        cases hfirst
    | case2 hinvalid =>
        rw [hinvalid] at hfirst
        cases hfirst
    | case3 before' parts' rest' hsome =>
        rw [hsome] at hfirst
        cases hfirst
        rfl
  induction h with
  | plain h =>
      fun_cases resolvePlaceholderString root _ _ with
      | case1 => rfl
      | case2 hinvalid =>
          rw [hinvalid] at h
          cases h
      | case3 before parts rest hsome =>
          rw [hsome] at h
          cases h
  | invalid h =>
      fun_cases resolvePlaceholderString root _ _ with
      | case1 hnone =>
          rw [hnone] at h
          cases h
      | case2 => rfl
      | case3 before parts rest hsome =>
          rw [hsome] at h
          cases h
  | unreferable h hparts =>
      rw [hstep h, hunreferable hparts]
      rfl
  | failed h hparts htext ih =>
      rw [hstep h, hreference hparts, ih]
      rfl
  | @expanded value stack before parts rest stack' text referenced outcome h hparts htext hrest ih
      ihrest =>
      rw [hstep h, hreference hparts, ih, ihrest]
      cases outcome with
      | error | ok => rfl

/-- Every text has an outcome. -/
theorem resolves (value : List UInt16) (stack : List JsString) :
  Resolves root value stack (resolvePlaceholderString root value stack)
  := by
  have hinduct := resolveReference.mutual_induct root
    (fun parts stack => ∀ stack' text, Refers root parts stack stack' text →
      Resolves root text stack' (resolvePlaceholderString root text stack'))
    (fun value stack => Resolves root value stack (resolvePlaceholderString root value stack))
  apply (hinduct _ _ _ _ _ _ _ _ _).2
  · intro parts stack error hpath stack' text hrefers
    exact absurd (.invalid hpath) hrefers.not_unreferable
  · intro parts stack path hpath hselected hdefault stack' text hrefers
    exact absurd (.missing ⟨path, hpath, hselected⟩ hdefault) hrefers.not_unreferable
  · intro parts stack path hpath hselected text hdefault ih stack' text' hrefers
    obtain ⟨rfl, rfl⟩ := hrefers.unique (.default ⟨path, hpath, hselected⟩ hdefault)
    exact ih
  · intro parts stack path hpath s hselected hkey stack' text hrefers
    exact absurd (.cycle ⟨path, hpath, hselected⟩ hkey) hrefers.not_unreferable
  · intro parts stack path hpath s hselected hkey ih stack' text hrefers
    obtain ⟨rfl, rfl⟩ := hrefers.unique (.reference ⟨path, hpath, hselected⟩ hkey)
    exact ih
  · intro parts stack path hpath value hvalue hselected stack' text hrefers
    exact absurd (.nonString ⟨path, hpath, hselected⟩ hvalue) hrefers.not_unreferable
  · intro value stack hfirst
    have hplain : Resolves root value stack (.ok value) := .plain hfirst
    rw [hplain.eq]
    exact hplain
  · intro value stack hfirst
    have hinvalid : Resolves root value stack (.error .invalid) := .invalid hfirst
    rw [hinvalid.eq]
    exact hinvalid
  · intro value stack before parts rest hfirst ihreference ihrest
    have houtcome : ∃ outcome, Resolves root value stack outcome := by
      obtain ⟨failure, hfailure, -⟩ | ⟨stack', text, hrefers, -⟩ :=
        @resolveReference_cases root parts stack
      · exact ⟨_, .unreferable hfirst hfailure⟩
      · have htext := ihreference stack' text hrefers
        cases hresult : resolvePlaceholderString root text stack' with
        | error failure =>
            rw [hresult] at htext
            exact ⟨_, .failed hfirst hrefers htext⟩
        | ok referenced =>
            rw [hresult] at htext
            exact ⟨_, .expanded hfirst hrefers htext ihrest⟩
    obtain ⟨outcome, houtcome⟩ := houtcome
    rw [houtcome.eq]
    exact houtcome

theorem resolves_iff {value : List UInt16} {stack : List JsString}
    {outcome : Except PlaceholderFailure (List UInt16)} :
  Resolves root value stack outcome ↔ resolvePlaceholderString root value stack = outcome
  := ⟨Resolves.eq, fun h => h ▸ resolves value stack⟩

/-! ### Cycles -/

/-- The text that is expanded next, with its stack: the one that a placeholder stands for, or what
follows a placeholder that was expanded. -/
inductive Follows (root : ConfigObject) :
    List UInt16 × List JsString → List UInt16 × List JsString → Prop
  | reference {value stack before parts rest stack' text}
      (h : firstPlaceholder value = .some before parts rest)
      (hparts : Refers root parts stack stack' text) : Follows root (value, stack) (text, stack')
  | rest {value stack before parts rest stack' text referenced}
      (h : firstPlaceholder value = .some before parts rest)
      (hparts : Refers root parts stack stack' text)
      (htext : Resolves root text stack' (.ok referenced)) :
      Follows root (value, stack) (rest, stack)

/-- The first placeholder of the text refers to a string whose key is on the stack. -/
def Revisits (root : ConfigObject) (state : List UInt16 × List JsString) : Prop :=
  ∃ before parts rest s, firstPlaceholder state.1 = .some before parts rest ∧
    Names root parts.key (some (.string s)) ∧ parts.key ∈ state.2

/-- A text fails with a cycle exactly when its expansion comes to a placeholder whose key is on the
stack. -/
theorem resolves_cycle_iff {value : List UInt16} {stack : List JsString} :
  Resolves root value stack (.error .cycle) ↔
    ∃ state, Relation.ReflTransGen (Follows root) (value, stack) state ∧ Revisits root state
  := by
  constructor
  · intro h
    generalize houtcome : Except.error PlaceholderFailure.cycle = outcome at h
    induction h with
    | plain | invalid => cases houtcome
    | @unreferable value stack before parts rest failure h hparts =>
        cases houtcome
        cases hparts with
        | cycle hnames hkey => exact ⟨_, .refl, before, parts, rest, _, h, hnames, hkey⟩
    | failed h hparts htext ih =>
        cases houtcome
        obtain ⟨state, hreach, hrevisits⟩ := ih rfl
        exact ⟨state, .head (.reference h hparts) hreach, hrevisits⟩
    | @expanded value stack before parts rest stack' text referenced outcome h hparts htext hrest
        ih ihrest =>
        cases outcome with
        | ok others => cases houtcome
        | error failure =>
            cases houtcome
            obtain ⟨state, hreach, hrevisits⟩ := ihrest rfl
            exact ⟨state, .head (.rest h hparts htext) hreach, hrevisits⟩
  · rintro ⟨state, hreach, hrevisits⟩
    have hfails : ∀ first : List UInt16 × List JsString,
        Relation.ReflTransGen (Follows root) first state →
        Resolves root first.1 first.2 (.error .cycle) := by
      intro first hfirst
      induction hfirst using Relation.ReflTransGen.head_induction_on with
      | refl =>
          obtain ⟨before, parts, rest, s, h, hnames, hkey⟩ := hrevisits
          exact .unreferable h (.cycle hnames hkey)
      | head hstep hrest ih =>
          cases hstep with
          | reference h hparts => exact .failed h hparts ih
          | rest h hparts htext => exact .expanded h hparts htext ih
    exact hfails _ hreach

/-! ### Substitution -/

/-- What a text means: every placeholder is replaced by what the string that it names means, or by
what its default means when nothing is at its path. -/
inductive Means (root : ConfigObject) : List UInt16 → List UInt16 → Prop
  | plain {value} (h : firstPlaceholder value = .none) : Means root value value
  | reference {value before parts rest s referenced others}
      (h : firstPlaceholder value = .some before parts rest)
      (hnames : Names root parts.key (some (.string s))) (hs : Means root s.units referenced)
      (hrest : Means root rest others) : Means root value (before ++ referenced ++ others)
  | default {value before parts rest text referenced others}
      (h : firstPlaceholder value = .some before parts rest) (hnames : Names root parts.key none)
      (hdefault : parts.defaultValue = some text) (htext : Means root text referenced)
      (hrest : Means root rest others) : Means root value (before ++ referenced ++ others)

/-- The same with the number of placeholders that are expanded. -/
inductive MeansIn (root : ConfigObject) : ℕ → List UInt16 → List UInt16 → Prop
  | plain {value} (h : firstPlaceholder value = .none) : MeansIn root 0 value value
  | reference {m n value before parts rest s referenced others}
      (h : firstPlaceholder value = .some before parts rest)
      (hnames : Names root parts.key (some (.string s))) (hs : MeansIn root m s.units referenced)
      (hrest : MeansIn root n rest others) :
      MeansIn root (m + n + 1) value (before ++ referenced ++ others)
  | default {m n value before parts rest text referenced others}
      (h : firstPlaceholder value = .some before parts rest) (hnames : Names root parts.key none)
      (hdefault : parts.defaultValue = some text) (htext : MeansIn root m text referenced)
      (hrest : MeansIn root n rest others) :
      MeansIn root (m + n + 1) value (before ++ referenced ++ others)

theorem Means.counted {value meaning : List UInt16} (h : Means root value meaning) :
  ∃ n, MeansIn root n value meaning
  := by
  induction h with
  | plain h => exact ⟨0, .plain h⟩
  | reference h hnames _ _ ih ihrest =>
      obtain ⟨m, hm⟩ := ih
      obtain ⟨n, hn⟩ := ihrest
      exact ⟨_, .reference h hnames hm hn⟩
  | default h hnames hdefault _ _ ih ihrest =>
      obtain ⟨m, hm⟩ := ih
      obtain ⟨n, hn⟩ := ihrest
      exact ⟨_, .default h hnames hdefault hm hn⟩

/-- A text has one meaning, with one number of placeholders. -/
theorem MeansIn.unique {m n : ℕ} {value meaning meaning' : List UInt16}
    (h : MeansIn root m value meaning) (h' : MeansIn root n value meaning') :
  m = n ∧ meaning = meaning'
  := by
  induction h generalizing n meaning' with
  | plain h =>
      cases h' with
      | plain h' => exact ⟨rfl, rfl⟩
      | reference h' _ _ _ | default h' _ _ _ _ =>
          rw [h] at h'
          cases h'
  | reference h hnames _ _ ih ihrest =>
      cases h' with
      | plain h' =>
          rw [h] at h'
          cases h'
      | reference h' hnames' hs' hrest' =>
          rw [h] at h'
          cases h'
          cases hnames.unique hnames'
          obtain ⟨rfl, rfl⟩ := ih hs'
          obtain ⟨rfl, rfl⟩ := ihrest hrest'
          exact ⟨rfl, rfl⟩
      | default h' hnames' _ _ _ =>
          rw [h] at h'
          cases h'
          cases hnames.unique hnames'
  | default h hnames hdefault _ _ ih ihrest =>
      cases h' with
      | plain h' =>
          rw [h] at h'
          cases h'
      | reference h' hnames' _ _ =>
          rw [h] at h'
          cases h'
          cases hnames.unique hnames'
      | default h' hnames' hdefault' htext' hrest' =>
          rw [h] at h'
          cases h'
          rw [hdefault] at hdefault'
          cases hdefault'
          obtain ⟨rfl, rfl⟩ := ih htext'
          obtain ⟨rfl, rfl⟩ := ihrest hrest'
          exact ⟨rfl, rfl⟩

/-- What the resolver returns of a text is what the text means. -/
theorem means_of_resolves {value meaning : List UInt16} {stack : List JsString}
    (h : Resolves root value stack (.ok meaning)) :
  Means root value meaning
  := by
  generalize houtcome : Except.ok meaning = outcome at h
  induction h generalizing meaning with
  | plain h =>
      cases houtcome
      exact .plain h
  | invalid | unreferable | failed => cases houtcome
  | @expanded value stack before parts rest stack' text referenced outcome h hparts htext hrest
      ih ihrest =>
      cases outcome with
      | error failure => cases houtcome
      | ok others =>
          cases houtcome
          cases hparts with
          | reference hnames hkey => exact .reference h hnames (ih rfl) (ihrest rfl)
          | default hnames hdefault => exact .default h hnames hdefault (ih rfl) (ihrest rfl)

/-- A text is expanded to what it means when the strings on the stack have at least as many
placeholders to expand. -/
theorem MeansIn.resolves {n : ℕ} {value meaning : List UInt16} {stack : List JsString}
    (h : MeansIn root n value meaning)
    (hstack : ∀ key ∈ stack, ∀ s, Names root key (some (.string s)) →
      ∀ m meaning', MeansIn root m s.units meaning' → n ≤ m) :
  Resolves root value stack (.ok meaning)
  := by
  induction h generalizing stack with
  | plain h => exact .plain h
  | @reference m n value before parts rest s referenced others h hnames hs hrest ih ihrest =>
      have hkey : parts.key ∉ stack := by
        intro hmem
        have hle := hstack parts.key hmem s hnames m referenced hs
        omega
      have htext : Resolves root s.units (stack ++ [parts.key]) (.ok referenced) := by
        apply ih
        intro key hkey s' hnames' m' meaning' hmeans
        obtain hold | hnew := List.mem_append.1 hkey
        · have hle := hstack key hold s' hnames' m' meaning' hmeans
          omega
        · rw [List.mem_singleton.1 hnew] at hnames'
          cases hnames.unique hnames'
          exact (hs.unique hmeans).1.le
      have hothers : Resolves root rest stack (.ok others) := by
        apply ihrest
        intro key hkey s' hnames' m' meaning' hmeans
        have hle := hstack key hkey s' hnames' m' meaning' hmeans
        omega
      exact .expanded h (.reference hnames hkey) htext hothers
  | @default m n value before parts rest text referenced others h hnames hdefault htext hrest ih
      ihrest =>
      have hreferenced : Resolves root text stack (.ok referenced) := by
        apply ih
        intro key hkey s' hnames' m' meaning' hmeans
        have hle := hstack key hkey s' hnames' m' meaning' hmeans
        omega
      have hothers : Resolves root rest stack (.ok others) := by
        apply ihrest
        intro key hkey s' hnames' m' meaning' hmeans
        have hle := hstack key hkey s' hnames' m' meaning' hmeans
        omega
      exact .expanded h (.default hnames hdefault) hreferenced hothers

/-- A string of the document is expanded to what it means. -/
theorem resolves_ok_iff {value meaning : List UInt16} :
  Resolves root value [] (.ok meaning) ↔ Means root value meaning
  := by
  constructor
  · exact means_of_resolves
  · intro h
    obtain ⟨n, hn⟩ := h.counted
    exact hn.resolves fun key hkey => absurd hkey List.not_mem_nil

/-! ### Documents -/

mutual

/-- The strings of a value, in their order. -/
def strings : ConfigValue → List JsString
  | .string s => [s]
  | .array elements => elementStrings elements
  | .object properties => propertyStrings properties
  | .null | .bool _ | .number _ => []

def elementStrings : List ConfigValue → List JsString
  | [] => []
  | element :: elements => strings element ++ elementStrings elements

def propertyStrings : ConfigObject → List JsString
  | [] => []
  | (_, value) :: properties => strings value ++ propertyStrings properties

end

mutual

/-- The value with every string replaced. -/
def substitute (f : JsString → JsString) : ConfigValue → ConfigValue
  | .string s => .string (f s)
  | .array elements => .array (substituteElements f elements)
  | .object properties => .object (substituteProperties f properties)
  | .null => .null
  | .bool b => .bool b
  | .number x => .number x

def substituteElements (f : JsString → JsString) : List ConfigValue → List ConfigValue
  | [] => []
  | element :: elements => substitute f element :: substituteElements f elements

def substituteProperties (f : JsString → JsString) : ConfigObject → ConfigObject
  | [] => []
  | (key, value) :: properties => (key, substitute f value) :: substituteProperties f properties

end

/-- Resolve one string of the document. -/
def expand (root : ConfigObject) (s : JsString) : Except PlaceholderFailure JsString :=
  (resolvePlaceholderString root s.units []).map fun us => ⟨us⟩

/-- The string that a string is resolved to. -/
def expansion (root : ConfigObject) (s : JsString) : JsString :=
  (expand root s).toOption.getD s

/-- The strings are resolved one after the other, and then everything is resolved as the one part
is. -/
theorem resolve_append {α β γ : Type} {first : Except PlaceholderFailure α}
    {second : Except PlaceholderFailure β} {l l' : List JsString} {a : α} {b : β}
    (combine : α → β → γ) (hfirst : first = (l.mapM (expand root)).map fun _ => a)
    (hsecond : second = (l'.mapM (expand root)).map fun _ => b) :
  (do
    let x ← first
    let y ← second
    .ok (combine x y)) = ((l ++ l').mapM (expand root)).map fun _ => combine a b
  := by
  rw [hfirst, hsecond, List.mapM_append]
  cases l.mapM (expand root) with
  | error failure => rfl
  | ok results =>
      cases l'.mapM (expand root) with
      | error | ok => rfl

mutual

theorem resolvePlaceholderValue_eq : ∀ value : ConfigValue,
    resolvePlaceholderValue root [] value =
      ((strings value).mapM (expand root)).map fun _ => substitute (expansion root) value
  | .string s => by
      rw [resolvePlaceholderValue, strings, substitute, expansion, expand, List.mapM_cons, expand]
      cases resolvePlaceholderString root s.units [] with
      | error | ok => rfl
  | .array elements => by
      rw [resolvePlaceholderValue, resolveElements_eq elements, strings, substitute]
      cases (elementStrings elements).mapM (expand root) with
      | error | ok => rfl
  | .object properties => by
      rw [resolvePlaceholderValue, resolveProperties_eq properties, strings, substitute]
      cases (propertyStrings properties).mapM (expand root) with
      | error | ok => rfl
  | .null => by rfl
  | .bool b => by rfl
  | .number x => by rfl

theorem resolveElements_eq : ∀ elements : List ConfigValue,
    resolveElements root [] elements = ((elementStrings elements).mapM (expand root)).map
      fun _ => substituteElements (expansion root) elements
  | [] => by rfl
  | element :: elements => by
      rw [resolveElements, elementStrings, substituteElements]
      exact resolve_append List.cons (resolvePlaceholderValue_eq element)
        (resolveElements_eq elements)

theorem resolveProperties_eq : ∀ properties : ConfigObject,
    resolveProperties root [] properties = ((propertyStrings properties).mapM (expand root)).map
      fun _ => substituteProperties (expansion root) properties
  | [] => by rfl
  | (key, value) :: properties => by
      rw [resolveProperties, propertyStrings, substituteProperties]
      exact resolve_append (fun resolved others => (key, resolved) :: others)
        (resolvePlaceholderValue_eq value) (resolveProperties_eq properties)

end

mutual

/-- Replacements that agree on the strings of a value. -/
theorem substitute_congr {f g : JsString → JsString} : ∀ value : ConfigValue,
    (∀ s ∈ strings value, f s = g s) → substitute f value = substitute g value
  | .string s, h => by
      rw [substitute, substitute, h s List.mem_cons_self]
  | .array elements, h => by
      rw [substitute, substitute, substituteElements_congr elements h]
  | .object properties, h => by
      rw [substitute, substitute, substituteProperties_congr properties h]
  | .null, _ => by rfl
  | .bool b, _ => by rfl
  | .number x, _ => by rfl

theorem substituteElements_congr {f g : JsString → JsString} : ∀ elements : List ConfigValue,
    (∀ s ∈ elementStrings elements, f s = g s) →
      substituteElements f elements = substituteElements g elements
  | [], _ => by rfl
  | element :: elements, h => by
      rw [elementStrings, List.forall_mem_append] at h
      rw [substituteElements, substituteElements, substitute_congr element h.1,
        substituteElements_congr elements h.2]

theorem substituteProperties_congr {f g : JsString → JsString} : ∀ properties : ConfigObject,
    (∀ s ∈ propertyStrings properties, f s = g s) →
      substituteProperties f properties = substituteProperties g properties
  | [], _ => by rfl
  | (key, value) :: properties, h => by
      rw [propertyStrings, List.forall_mem_append] at h
      rw [substituteProperties, substituteProperties, substitute_congr value h.1,
        substituteProperties_congr properties h.2]

end

theorem expand_eq_ok {s t : JsString} :
  expand root s = .ok t ↔ Means root s.units t.units
  := by
  rw [← resolves_ok_iff, resolves_iff, expand, Except.map_eq_ok_iff]
  constructor
  · rintro ⟨us, hus, rfl⟩
    exact hus
  · intro h
    exact ⟨t.units, h, rfl⟩

theorem expand_eq_cycle {s : JsString} :
  expand root s = .error .cycle ↔
    ∃ state, Relation.ReflTransGen (Follows root) (s.units, []) state ∧ Revisits root state
  := by
  rw [← resolves_cycle_iff, resolves_iff, expand]
  cases resolvePlaceholderString root s.units [] with
  | error failure => rw [Except.map, Except.error.injEq, Except.error.injEq]
  | ok us =>
      constructor
      · rintro ⟨⟩
      · rintro ⟨⟩

theorem placeholderFailure_injective :
  Function.Injective placeholderFailure
  := by
  intro failure failure' h
  cases failure <;> cases failure' <;> first | rfl | exact absurd h (by decide)

/-- The document is resolved when all of its strings are, one after the other. -/
theorem placeholderResolver_eq :
  placeholderResolver root =
    (((propertyStrings root).mapM (expand root)).mapError placeholderFailure).map
      fun _ => substituteProperties (expansion root) root
  := by
  rw [placeholderResolver, resolvePlaceholderValue_eq, strings, substitute]
  cases (propertyStrings root).mapM (expand root) with
  | error | ok => rfl

/-- The resolver returns the document with every string replaced by what it means, and else throws
one of the four failures. It throws the cycle failure exactly when, behind strings that are resolved,
it comes to one whose expansion follows references to a key that is on the stack. A text means one
text at most. -/
theorem placeholders_faithful (root : ConfigObject) :
  (∀ resolved, placeholderResolver root = .ok resolved ↔
    ∃ meaning : JsString → JsString,
      (∀ s ∈ propertyStrings root, Means root s.units (meaning s).units) ∧
        resolved = substituteProperties meaning root) ∧
  (∀ error, placeholderResolver root = .error error →
    ∃ failure, error = placeholderFailure failure) ∧
  (placeholderResolver root = .error (placeholderFailure .cycle) ↔
    ∃ before s after, propertyStrings root = before ++ s :: after ∧
      (∀ t ∈ before, ∃ meaning : JsString, Means root t.units meaning.units) ∧
      ∃ state, Relation.ReflTransGen (Follows root) (s.units, []) state ∧ Revisits root state) ∧
  ∀ value meaning meaning', Means root value meaning → Means root value meaning' →
    meaning = meaning'
  := by
  rw [placeholderResolver_eq]
  refine ⟨?_, ?_, ?_, ?_⟩
  · intro resolved
    rw [Except.map_eq_ok_iff]
    constructor
    · rintro ⟨results, hresults, rfl⟩
      have hall := Except.exists_mapM_eq_ok_iff.1 ⟨results, Except.mapError_eq_ok_iff.1 hresults⟩
      refine ⟨expansion root, ?_, rfl⟩
      intro s hs
      obtain ⟨t, ht⟩ := hall s hs
      have hexpansion : expansion root s = t := by
        rw [expansion, ht]
        rfl
      rw [hexpansion]
      exact expand_eq_ok.1 ht
    · rintro ⟨meaning, hmeaning, rfl⟩
      have hexpand : ∀ s ∈ propertyStrings root, expand root s = .ok (meaning s) :=
        fun s hs => expand_eq_ok.2 (hmeaning s hs)
      obtain ⟨results, hresults⟩ :=
        Except.exists_mapM_eq_ok_iff.2 fun s hs => ⟨meaning s, hexpand s hs⟩
      refine ⟨results, Except.mapError_eq_ok_iff.2 hresults, ?_⟩
      apply substituteProperties_congr
      intro s hs
      rw [expansion, hexpand s hs]
      rfl
  · intro error h
    cases hstrings : (propertyStrings root).mapM (expand root) with
    | error failure =>
        rw [hstrings] at h
        cases h
        exact ⟨failure, rfl⟩
    | ok results =>
        rw [hstrings] at h
        cases h
  · have hcycle : (((propertyStrings root).mapM (expand root)).mapError placeholderFailure).map
        (fun _ => substituteProperties (expansion root) root) =
          .error (placeholderFailure .cycle) ↔
        (propertyStrings root).mapM (expand root) = .error .cycle := by
      cases (propertyStrings root).mapM (expand root) with
      | error failure =>
          rw [Except.mapError, Except.map, Except.error.injEq, Except.error.injEq]
          exact placeholderFailure_injective.eq_iff
      | ok results =>
          constructor
          · rintro ⟨⟩
          · rintro ⟨⟩
    rw [hcycle, Except.mapM_eq_error_iff]
    simp only [expand_eq_ok, expand_eq_cycle]
  · intro value meaning meaning' h h'
    obtain ⟨m, hm⟩ := h.counted
    obtain ⟨n, hn⟩ := h'.counted
    exact (hm.unique hn).2

/-! ### Paths of a resolved document -/

end Config
