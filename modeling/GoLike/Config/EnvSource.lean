import GoLike.Config.EnvTree
import GoLike.Lib.Fallible

/-!
# Ambiguous environments

An environment is ambiguous when the path of a selected variable is that of another one, or
leads to it. Insertion finds this when the name of the first variable comes first, and then the
source is refused. Otherwise the later variable hides the others.
-/

namespace Config

variable {ε : Type} {host : StringHost}

/-! ### Selected variables -/

/-- The units of a string are checked one by one. -/
theorem ascii_of_all {key : JsString} (h : key.units.all (fun u => decide (u < 128)) = true) :
  ∀ u ∈ key.units, u < 128
  := by
  intro u hu
  exact of_decide_eq_true (List.all_eq_true.mp h u hu)

theorem asciiLower_unsafe {key : JsString} (h : isUnsafeKey key = true) :
  (∀ u ∈ key.units, u < 128) ∧ asciiLower key = key
  := by
  rw [isUnsafeKey, Bool.or_eq_true, Bool.or_eq_true, decide_eq_true_iff, decide_eq_true_iff,
    decide_eq_true_iff] at h
  obtain (rfl | rfl) | rfl := h
  · exact ⟨ascii_of_all rfl, rfl⟩
  · exact ⟨ascii_of_all rfl, rfl⟩
  · exact ⟨ascii_of_all rfl, rfl⟩

/-- A key whose lower case is safe is safe. -/
theorem isUnsafeKey_of_toLowerCase {key : JsString}
    (h : isUnsafeKey (host.toLowerCase key) = false) :
  isUnsafeKey key = false
  := by
  cases hkey : isUnsafeKey key with
  | false => rfl
  | true =>
      obtain ⟨hascii, hlower⟩ := asciiLower_unsafe hkey
      rw [host.toLowerCase_ascii key hascii, hlower, hkey] at h
      exact h

theorem pathSegments_ok {lowercase : Bool} {rawSegments segments : List JsString}
    (h : pathSegments host lowercase rawSegments = .ok segments) :
  segments = rawSegments.map (pathSegment host lowercase) ∧
    ∀ segment ∈ segments, isUnsafeKey segment = false
  := by
  induction rawSegments generalizing segments with
  | nil =>
      cases h
      exact ⟨rfl, by simp⟩
  | cons rawSegment rawSegments ih =>
      rw [pathSegments] at h
      split at h
      · cases h
      · dsimp only at h
        split at h
        · cases h
        · rename_i hsafe
          obtain ⟨rest, hrest, ⟨⟩⟩ := Except.bind_eq_ok_iff.mp h
          obtain ⟨hmap, hall⟩ := ih hrest
          refine ⟨by rw [List.map_cons, hmap], ?_⟩
          rintro segment (_ | ⟨_, hsegment⟩)
          · exact isUnsafeKey_of_toLowerCase (Bool.eq_false_iff.mpr hsafe)
          · exact hall segment hsegment

/-- A path has a segment, and its segments are safe. -/
theorem environmentPath_ok {environmentName namePrefix separator : JsString} {lowercase : Bool}
    {path : List JsString}
    (h : environmentPath host environmentName namePrefix separator lowercase = .ok (some path)) :
  path ≠ [] ∧ ∀ segment ∈ path, isUnsafeKey segment = false
  := by
  rw [environmentPath] at h
  split at h
  · cases h
  · dsimp only at h
    split at h
    · cases h
    · obtain ⟨segments, hsegments, ⟨⟩⟩ := Except.map_eq_ok_iff.mp h
      obtain ⟨hmap, hsafe⟩ := pathSegments_ok hsegments
      refine ⟨?_, hsafe⟩
      rintro rfl
      exact JsString.splitUnits_ne_nil _ _ _ _ (List.map_eq_nil_iff.mp hmap.symm)

mutual

/-- A copy is admitted. -/
theorem isAdmitted_copyConfigValue : ∀ (value : Unknown) (path : List JsString)
    (copy : ConfigValue), copyConfigValue path value = .ok copy → isAdmitted copy = true
  | .null, _, _, h => by
      cases h
      rfl
  | .boolean _, _, _, h => by
      cases h
      rfl
  | .string _, _, _, h => by
      cases h
      rfl
  | .number x, _, _, h => by
      rw [copyConfigValue] at h
      split at h
      · rename_i hfinite
        cases h
        rw [isAdmitted]
        exact hfinite
      · cases h
  | .other, _, _, h => by cases h
  | .array symbols names entries, path, copy, h => by
      rw [copyConfigValue] at h
      split at h
      · cases h
      · obtain ⟨copies, hcopies, rfl⟩ := Except.map_eq_ok_iff.mp h
        rw [isAdmitted]
        exact areAdmitted_copyElements entries path 0 copies hcopies
  | .object symbols ordinary properties, path, copy, h => by
      rw [copyConfigValue] at h
      split at h
      · cases h
      · split at h
        · cases h
        · obtain ⟨copies, hcopies, rfl⟩ := Except.map_eq_ok_iff.mp h
          rw [isAdmitted]
          exact haveAdmitted_copyProperties properties path copies hcopies

theorem areAdmitted_copyElements : ∀ (entries : List (Option (Bool × Unknown)))
    (path : List JsString) (index : ℕ) (copies : List ConfigValue),
    copyElements path index entries = .ok copies → areAdmitted copies = true
  | [], _, _, _, h => by
      cases h
      rfl
  | none :: _, _, _, _, h => by cases h
  | some (enumerable, value) :: entries, path, index, copies, h => by
      rw [copyElements] at h
      split at h
      · cases h
      · obtain ⟨copy, hcopy, h⟩ := Except.bind_eq_ok_iff.mp h
        obtain ⟨rest, hrest, ⟨⟩⟩ := Except.bind_eq_ok_iff.mp h
        rw [areAdmitted, isAdmitted_copyConfigValue value _ copy hcopy,
          areAdmitted_copyElements entries path (index + 1) rest hrest]
        rfl

theorem haveAdmitted_copyProperties : ∀ (properties : List (JsString × Option (Bool × Unknown)))
    (path : List JsString) (copies : ConfigObject),
    copyProperties path properties = .ok copies → haveAdmitted copies = true
  | [], _, _, h => by
      cases h
      rfl
  | (key, none) :: _, _, _, h => by
      rw [copyProperties] at h
      split at h
      · cases h
      · cases h
  | (key, some (enumerable, value)) :: properties, path, copies, h => by
      rw [copyProperties] at h
      split at h
      · cases h
      · rename_i hsafe
        split at h
        · cases h
        · obtain ⟨copy, hcopy, h⟩ := Except.bind_eq_ok_iff.mp h
          obtain ⟨rest, hrest, ⟨⟩⟩ := Except.bind_eq_ok_iff.mp h
          rw [haveAdmitted, Bool.eq_false_iff.mpr hsafe,
            isAdmitted_copyConfigValue value _ copy hcopy,
            haveAdmitted_copyProperties properties path rest hrest]
          rfl

end

variable {environment : EnvironmentRecord} {options : EnvSourceOptions ε}

/-- An entry has a path with safe segments, and an admitted value. -/
structure EnvEntry.Valid (entry : EnvEntry) : Prop where
  path : entry.path ≠ []
  safe : ∀ segment ∈ entry.path, isUnsafeKey segment = false
  admitted : isAdmitted entry.value = true

/-- The variable of an entry has a string. -/
theorem entry_ok {environmentName : JsString} {entry : EnvEntry}
    (h : options.entry host environment environmentName = .ok (some entry)) :
  options.pathOf host environmentName = .ok (some entry.path) ∧
    (∃ rawValue, environment.get? environmentName = some (.string rawValue)) ∧ entry.Valid
  := by
  rw [EnvSourceOptions.entry] at h
  obtain ⟨path?, hpath, h⟩ := Except.bind_eq_ok_iff.mp h
  rw [Except.mapError_eq_ok_iff] at hpath
  cases path? with
  | none => cases h
  | some path =>
      obtain ⟨hne, hsafe⟩ := environmentPath_ok hpath
      dsimp only at h
      split at h
      · cases h
      · rename_i rawValue hvalue
        obtain ⟨decoded, -, h⟩ := Except.bind_eq_ok_iff.mp h
        obtain ⟨value, hcopy, ⟨⟩⟩ := Except.bind_eq_ok_iff.mp h
        rw [Except.mapError_eq_ok_iff] at hcopy
        exact ⟨hpath, ⟨rawValue, hvalue⟩, hne, hsafe, isAdmitted_copyConfigValue _ _ _ hcopy⟩
      · cases h
      · cases h

variable (host environment options)

/-- The variable has an entry. -/
def Selects (environmentName : JsString) (entry : EnvEntry) : Prop :=
  options.entry host environment environmentName = .ok (some entry)

/-- The options are admitted, and so is every variable by itself. -/
structure Admissible : Prop where
  name : options.resolvedName.isEmpty = false
  separator : options.resolvedSeparator.isEmpty = false
  values : ∀ n ∈ environment.entries.map Prod.fst,
    ∃ found, options.entry host environment n = .ok found

/-- The path of a selected variable is that of another one, or leads to it. -/
def Ambiguous : Prop :=
  ∃ m n e f, m ≠ n ∧ Selects host environment options m e ∧ Selects host environment options n f ∧
    e.path <+: f.path

/-- The path of a selected variable is that of a variable with a later name, or leads to it. -/
def Obstructed : Prop :=
  ∃ m n e f, m.units < n.units ∧ Selects host environment options m e ∧
    Selects host environment options n f ∧ e.path <+: f.path

/-- The value of every selected variable is found at its path in an object. Nothing else is
found outside of these values and above them. -/
structure Faithful (value : ConfigObject) : Prop where
  finds : ∀ n e, Selects host environment options n e → select e.path (.object value) = some e.value
  nothing : ∀ path, path ≠ [] → (select path (.object value)).isSome = true →
    ∃ n e, Selects host environment options n e ∧ (path <+: e.path ∨ e.path <+: path)

/-! ### The entries -/

/-- The entry of a variable, if it has one. -/
def entryOf (environmentName : JsString) : Option EnvEntry :=
  (options.entry host environment environmentName).toOption.join

variable {host environment options}

theorem entryOf_eq_some {environmentName : JsString} {e : EnvEntry} :
  entryOf host environment options environmentName = some e ↔
    Selects host environment options environmentName e
  := by
  rw [entryOf, Selects]
  cases options.entry host environment environmentName with
  | error failure => simp [Except.toOption]
  | ok found => cases found <;> simp [Except.toOption]

theorem entries_ok {names : List JsString}
    (h : ∀ n ∈ names, ∃ found, options.entry host environment n = .ok found) :
  options.entries host environment names =
    .ok (names.filterMap (entryOf host environment options))
  := by
  induction names with
  | nil => rfl
  | cons n names ih =>
      obtain ⟨⟨found, hentry⟩, hnames⟩ := List.forall_mem_cons.mp h
      have hof : entryOf host environment options n = found := by
        rw [entryOf, hentry]
        rfl
      rw [EnvSourceOptions.entries, hentry, ih hnames, List.filterMap_cons, hof]
      cases found <;> rfl

theorem entries_error {names : List JsString}
    (h : ¬ ∀ n ∈ names, ∃ found, options.entry host environment n = .ok found) :
  ∃ failure, options.entries host environment names = .error failure
  := by
  induction names with
  | nil => exact absurd (by simp) h
  | cons n names ih =>
      rw [EnvSourceOptions.entries]
      cases hentry : options.entry host environment n with
      | error failure => exact ⟨failure, rfl⟩
      | ok found =>
          obtain ⟨failure, hfailure⟩ := ih
            (fun hnames => h (List.forall_mem_cons.mpr ⟨⟨found, hentry⟩, hnames⟩))
          rw [hfailure]
          exact ⟨failure, rfl⟩

/-- In a list in strict order, a relation of earlier to later elements is one of smaller to
larger elements. -/
theorem pairwise_iff_of_strict {α : Type} {r p : α → α → Prop} (hasymm : ∀ a b, r a b → ¬ r b a)
    {l : List α} (h : l.Pairwise r) :
  l.Pairwise p ↔ ∀ a ∈ l, ∀ b ∈ l, r a b → p a b
  := by
  constructor
  · intro hp
    induction l with
    | nil => simp
    | cons x l ih =>
        obtain ⟨hr, h⟩ := List.pairwise_cons.mp h
        obtain ⟨hx, hp⟩ := List.pairwise_cons.mp hp
        rintro a (_ | ⟨_, ha⟩) b (_ | ⟨_, hb⟩) hab
        · exact absurd hab (hasymm _ _ hab)
        · exact hx b hb
        · exact absurd (hr a ha) (hasymm _ _ hab)
        · exact ih h hp a ha b hb hab
  · intro hall
    exact h.imp_of_mem (fun {a b} ha hb hab => hall a ha b hb hab)

theorem sortedNames_strict (environment : EnvironmentRecord) :
  (sortedNames environment).Pairwise (fun left right => left.units < right.units)
  := by
  let r : JsString → JsString → Prop := fun left right => left.units ≤ right.units
  have : Std.Total r := ⟨fun left right => List.le_total left.units right.units⟩
  have : IsTrans JsString r := ⟨fun _ _ _ => List.le_trans⟩
  have hnodup : (sortedNames environment).Nodup :=
    (List.perm_insertionSort _ _).nodup_iff.mpr environment.nodup
  have hsorted : (sortedNames environment).Pairwise r := List.pairwise_insertionSort r _
  refine (hsorted.and hnodup).imp ?_
  rintro left right ⟨hle, hne⟩
  obtain hlt | heq := List.le_iff_lt_or_eq.mp hle
  · exact hlt
  · exact absurd (congrArg JsString.mk heq) hne

theorem mem_sortedNames {n : JsString} :
  n ∈ sortedNames environment ↔ n ∈ environment.entries.map Prod.fst
  := (List.perm_insertionSort _ _).mem_iff

theorem Selects.mem {n : JsString} {e : EnvEntry} (h : Selects host environment options n e) :
  n ∈ sortedNames environment
  := by
  obtain ⟨-, ⟨rawValue, hvalue⟩, -⟩ := entry_ok h
  rw [mem_sortedNames]
  exact List.mem_map_of_mem (JsMap.get?_eq_some.mp hvalue)

/-- The entries obstruct a later one just when a name obstructs a later one. -/
theorem unobstructed_iff :
  Unobstructed ((sortedNames environment).filterMap (entryOf host environment options)) ↔
    ¬ Obstructed host environment options
  := by
  rw [Unobstructed, List.pairwise_filterMap,
    pairwise_iff_of_strict (fun _ _ => List.lt_asymm) (sortedNames_strict environment)]
  constructor
  · rintro hall ⟨m, n, e, f, hlt, he, hf, hbelow⟩
    exact hall m he.mem n hf.mem hlt e (entryOf_eq_some.mpr he) f (entryOf_eq_some.mpr hf) hbelow
  · intro hnot m _ n _ hlt e he f hf hbelow
    exact hnot ⟨m, n, e, f, hlt, entryOf_eq_some.mp he, entryOf_eq_some.mp hf, hbelow⟩

/-! ### Sources -/

theorem Obstructed.ambiguous (h : Obstructed host environment options) :
  Ambiguous host environment options
  := by
  obtain ⟨m, n, e, f, hlt, he, hf, hbelow⟩ := h
  refine ⟨m, n, e, f, ?_, he, hf, hbelow⟩
  rintro rfl
  exact List.lt_irrefl _ hlt

/-- The paths of an environment that is not ambiguous do not lead to each other. -/
theorem eq_of_below (h : ¬ Ambiguous host environment options) {m n : JsString} {e f : EnvEntry}
    (he : Selects host environment options m e) (hf : Selects host environment options n f)
    (hbelow : e.path <+: f.path) :
  e = f
  := by
  by_cases hmn : m = n
  · subst hmn
    cases he.symm.trans hf
    rfl
  · exact absurd ⟨m, n, e, f, hmn, he, hf, hbelow⟩ h

/-- The entries of the selected variables. -/
def selectedEntries (host : StringHost) (environment : EnvironmentRecord)
    (options : EnvSourceOptions ε) : List EnvEntry :=
  (sortedNames environment).filterMap (entryOf host environment options)

theorem mem_selectedEntries {e : EnvEntry} :
  e ∈ selectedEntries host environment options ↔ ∃ n, Selects host environment options n e
  := by
  rw [selectedEntries, List.mem_filterMap]
  constructor
  · rintro ⟨n, -, hn⟩
    exact ⟨n, entryOf_eq_some.mp hn⟩
  · rintro ⟨n, hn⟩
    exact ⟨n, hn.mem, entryOf_eq_some.mpr hn⟩

/-- A tree of the entries has safe keys and admitted values. -/
theorem Collected.admittedTree {root : EnvNode}
    (h : Collected (selectedEntries host environment options) newNode root) :
  AdmittedTree root
  := by
  have hvalid (e : EnvEntry) (he : e ∈ selectedEntries host environment options) : e.Valid := by
    obtain ⟨n, hn⟩ := mem_selectedEntries.mp he
    exact (entry_ok hn).2.2
  constructor
  · intro path key hkey
    obtain hnew | ⟨e, he, hbelow⟩ := h.nodes _ hkey
    · rw [newNode, Trie.at?_leaf _ (by simp)] at hnew
      cases hnew
    · exact (hvalid e he).safe key (hbelow.subset (by simp))
  · intro path v hv
    obtain ⟨e, he, -, rfl⟩ | hnew := (h.values path v).mp hv
    · exact (hvalid e he).admitted
    · rw [valueAt_newNode] at hnew
      cases hnew

/-- The object of a tree of the entries has their values when the environment is not
ambiguous. -/
theorem Collected.faithful {root : EnvNode}
    (h : Collected (selectedEntries host environment options) newNode root)
    (hambiguous : ¬ Ambiguous host environment options) :
  Faithful host environment options (materializeNode host root)
  := by
  have hdistinct : root.Distinct := h.distinct (Trie.Distinct.leaf _)
  have hvalue (q : List JsString) (v : ConfigValue) : valueAt root q = some v ↔
      ∃ n e, Selects host environment options n e ∧ e.path = q ∧ e.value = v := by
    rw [h.values, valueAt_newNode]
    constructor
    · rintro (⟨e, he, hboth⟩ | ⟨⟨⟩⟩)
      obtain ⟨n, hn⟩ := mem_selectedEntries.mp he
      exact ⟨n, e, hn, hboth⟩
    · rintro ⟨n, e, hn, hboth⟩
      exact .inl ⟨e, mem_selectedEntries.mpr ⟨n, hn⟩, hboth⟩
  constructor
  case finds =>
    intro n e hn
    apply select_valueAt hdistinct (entry_ok hn).2.2.path ((hvalue _ _).mpr ⟨n, e, hn, rfl, rfl⟩)
    intro p hp _ hne
    by_contra hsome
    obtain ⟨v, hv⟩ := Option.ne_none_iff_exists'.mp hsome
    obtain ⟨m, f, hm, rfl, rfl⟩ := (hvalue p v).mp hv
    exact hne (congrArg EnvEntry.path (eq_of_below hambiguous hm hn hp))
  case nothing =>
    intro path hpath hfound
    obtain hnode | ⟨p, hp, -, hsome⟩ := select_found hdistinct hfound
    · obtain hnew | ⟨e, he, hbelow⟩ := h.nodes path hnode
      · rw [newNode, Trie.at?_leaf _ hpath] at hnew
        cases hnew
      · obtain ⟨n, hn⟩ := mem_selectedEntries.mp he
        exact ⟨n, e, hn, .inl hbelow⟩
    · obtain ⟨v, hv⟩ := Option.isSome_iff_exists.mp hsome
      obtain ⟨n, e, hn, rfl, rfl⟩ := (hvalue p v).mp hv
      exact ⟨n, e, hn, .inr hp⟩

/-- An environment that is not admissible is refused. -/
theorem envSource_inadmissible (h : ¬ Admissible host environment options) :
  ∃ failure, envSource host environment options = .error failure
  := by
  rw [envSource]
  split
  · exact ⟨_, rfl⟩
  · rename_i hname
    split
    · exact ⟨_, rfl⟩
    · rename_i hseparator
      have hentries : ¬ ∀ n ∈ sortedNames environment,
          ∃ found, options.entry host environment n = .ok found := by
        intro hall
        exact h ⟨Bool.eq_false_iff.mpr hname, Bool.eq_false_iff.mpr hseparator,
          fun n hn => hall n (mem_sortedNames.mpr hn)⟩
      obtain ⟨failure, hfailure⟩ := entries_error hentries
      rw [hfailure]
      exact ⟨failure, rfl⟩

/-- An admissible environment is refused just when a name obstructs a later one. -/
theorem envSource_admissible (h : Admissible host environment options) :
  (∃ failure, envSource host environment options = .error failure) ∧
      Obstructed host environment options ∨
    ∃ source, envSource host environment options = .ok source ∧
      ¬ Obstructed host environment options ∧
      (¬ Ambiguous host environment options →
        Faithful host environment options source.load.value)
  := by
  have hentries : options.entries host environment (sortedNames environment) =
      .ok (selectedEntries host environment options) :=
    entries_ok (fun n hn => h.values n (mem_sortedNames.mp hn))
  have hfree : ∀ e ∈ selectedEntries host environment options, ¬ Blocked newNode e.path := by
    rintro e _ ⟨p, -, hsome⟩
    rw [valueAt_newNode] at hsome
    cases hsome
  rw [envSource, h.name, if_neg Bool.false_ne_true, h.separator, if_neg Bool.false_ne_true,
    hentries]
  obtain ⟨⟨failure, hfailure⟩, hnot⟩ | ⟨root, hroot, hun, -, hcollected⟩ :=
    insertEntries_spec (selectedEntries host environment options) newNode
  · left
    refine ⟨⟨.typeError failure, ?_⟩, ?_⟩
    · apply Except.bind_eq_error_iff.mpr
      refine .inr ⟨_, rfl, Except.bind_eq_error_iff.mpr (.inl ?_)⟩
      rw [hfailure]
      rfl
    · by_contra hobstructed
      exact hnot ⟨unobstructed_iff.mpr hobstructed, hfree⟩
  · right
    have hadmitted : haveAdmitted (materializeNode host root) = true :=
      haveAdmitted_materializeNode root (hcollected.distinct (Trie.Distinct.leaf _))
        hcollected.admittedTree
    have hsource := objectSource_of_admitted h.name hadmitted
    refine ⟨⟨options.resolvedName, ⟨materializeNode host root, none⟩⟩, ?_,
      unobstructed_iff.mp hun, hcollected.faithful⟩
    exact Except.bind_eq_ok_iff.mpr ⟨_, rfl, Except.bind_eq_ok_iff.mpr
      ⟨root, Except.mapError_eq_ok_iff.mpr hroot, Except.mapError_eq_ok_iff.mpr hsource⟩⟩

variable (host environment options) in
/-- An ambiguous environment is refused. One that is not ambiguous, and whose variables are
admitted by themselves, has a source with the values of the selected variables and nothing
else. -/
def RefusesAmbiguous : Prop :=
  (Ambiguous host environment options →
    ∃ failure, envSource host environment options = .error failure) ∧
  (¬ Ambiguous host environment options → Admissible host environment options →
    ∃ source, envSource host environment options = .ok source ∧
      Faithful host environment options source.load.value)

/-- Ambiguous environments are refused just when, in an ambiguous environment whose variables are
admitted by themselves, the path of some variable is that of a variable with a later name, or
leads to it. -/
theorem envSource_refusesAmbiguous (host : StringHost) (environment : EnvironmentRecord)
    (options : EnvSourceOptions ε) :
  RefusesAmbiguous host environment options ↔
    (Admissible host environment options → Ambiguous host environment options →
      Obstructed host environment options)
  := by
  by_cases hadmissible : Admissible host environment options
  · obtain ⟨hrefused, hobstructed⟩ | ⟨source, hsource, hfree, hfaithful⟩ :=
      envSource_admissible hadmissible
    · constructor
      · exact fun _ _ _ => hobstructed
      · exact fun _ => ⟨fun _ => hrefused, fun hnot => absurd hobstructed.ambiguous hnot⟩
    · constructor
      · rintro ⟨hrefuses, -⟩ _ hambiguous
        obtain ⟨failure, hfailure⟩ := hrefuses hambiguous
        rw [hsource] at hfailure
        cases hfailure
      · intro hfound
        constructor
        · intro hambiguous
          exact absurd (hfound hadmissible hambiguous) hfree
        · intro hnot _
          exact ⟨source, hsource, hfaithful hnot⟩
  · constructor
    · exact fun _ h => absurd h hadmissible
    · exact fun _ => ⟨fun _ => envSource_inadmissible hadmissible, fun _ h => absurd h hadmissible⟩

/-! ### Names that keep their case -/

/-! ### Names whose case is changed -/

/-- A host whose strings have ASCII characters. -/
def asciiHost : StringHost where
  toLowerCase := asciiLower
  localeCompare := fun left right =>
    if left.units < right.units then -1 else if left = right then 0 else 1
  toLowerCase_ascii := fun _ _ => rfl

/-- The default options. -/
def defaultOptions : EnvSourceOptions Unit := ⟨none, none, none, none, none⟩

/-- The variables `A__B` and `a`. -/
def hiddenEnvironment : EnvironmentRecord :=
  (JsMap.empty.set (JsString.ofString "A__B") (.string (JsString.ofString "1"))).set
    (JsString.ofString "a") (.string (JsString.ofString "2"))

/-- The later name `a` hides the value of `A__B`, which is lost. -/
theorem envSource_hides :
  Ambiguous asciiHost hiddenEnvironment defaultOptions ∧
  (envSource asciiHost hiddenEnvironment defaultOptions).map (fun source => source.load.value) =
    .ok [(JsString.ofString "a", .string (JsString.ofString "2"))] ∧
  ¬ RefusesAmbiguous asciiHost hiddenEnvironment defaultOptions
  := by
  have hambiguous : Ambiguous asciiHost hiddenEnvironment defaultOptions := by
    refine ⟨JsString.ofString "a", JsString.ofString "A__B",
      ⟨[JsString.ofString "a"], .string (JsString.ofString "2")⟩,
      ⟨[JsString.ofString "a", JsString.ofString "b"], .string (JsString.ofString "1")⟩,
      by decide, by rfl, by rfl, ?_⟩
    exact ⟨[JsString.ofString "b"], rfl⟩
  have hsource : (envSource asciiHost hiddenEnvironment defaultOptions).map
      (fun source => source.load.value) =
        .ok [(JsString.ofString "a", .string (JsString.ofString "2"))] := by rfl
  refine ⟨hambiguous, hsource, ?_⟩
  rintro ⟨hrefuses, -⟩
  obtain ⟨failure, hfailure⟩ := hrefuses hambiguous
  rw [hfailure] at hsource
  cases hsource

end Config
