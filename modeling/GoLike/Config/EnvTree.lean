import GoLike.Config.Env

/-!
# The tree of the environment source

Inserting a value changes the value at its path only, and fails when a value is at this path or
above it. The object of a tree has the values of the tree at their paths, and nothing else,
when no value is above another one.
-/

namespace Config

/-! ### Values at paths -/

/-- The value of a node, if it has one. -/
def EnvLabel.value? (label : EnvLabel) : Option ConfigValue :=
  if label.occupied then some label.value else none

/-- The value at a path of a tree. -/
def valueAt (node : EnvNode) (path : List JsString) : Option ConfigValue :=
  (node.at? path).bind (fun child => child.label.value?)

theorem valueAt_cons (node : EnvNode) (segment : JsString) (path : List JsString) :
  valueAt node (segment :: path) =
    (JsMap.lookup segment node.children).bind (fun child => valueAt child path)
  := by
  rw [valueAt, Trie.at?_cons, Option.bind_assoc]
  rfl

theorem valueAt_newNode (path : List JsString) :
  valueAt newNode path = none
  := by
  cases path with
  | nil | cons => rfl

/-- A child that is absent has no values. -/
theorem valueAt_child (node : EnvNode) (segment : JsString) (path : List JsString) :
  valueAt ((JsMap.lookup segment node.children).getD newNode) path =
    valueAt node (segment :: path)
  := by
  rw [valueAt_cons]
  cases JsMap.lookup segment node.children with
  | none => exact valueAt_newNode path
  | some child => rfl

theorem valueAt_put (label : EnvLabel) (children : List (JsString × EnvNode)) (segment : JsString)
    (child : EnvNode) (k : JsString) (path : List JsString) :
  valueAt (.node label (JsMap.put segment child children)) (k :: path) =
    if k = segment then valueAt child path else valueAt (.node label children) (k :: path)
  := by
  rw [valueAt, Trie.at?_put]
  split
  · rfl
  · rfl

variable {node : EnvNode}

theorem valueAt_nil_of_occupied (h : node.label.occupied = true) :
  (valueAt node []).isSome = true
  := by
  rw [valueAt, Trie.at?_nil, Option.bind_some, EnvLabel.value?, if_pos h]
  rfl

theorem valueAt_nil_of_free (h : node.label.occupied = false) :
  valueAt node [] = none
  := by
  rw [valueAt, Trie.at?_nil, Option.bind_some, EnvLabel.value?, h]
  rfl

/-! ### Insertion -/

/-- A value is at the path or above it. -/
def Blocked (node : EnvNode) (path : List JsString) : Prop :=
  ∃ p, p <+: path ∧ (valueAt node p).isSome = true

theorem blocked_nil :
  Blocked node [] ↔ (valueAt node []).isSome = true
  := by
  constructor
  · rintro ⟨p, hp, hvalue⟩
    rw [List.prefix_nil.mp hp] at hvalue
    exact hvalue
  · intro hvalue
    exact ⟨[], List.prefix_rfl, hvalue⟩

variable {path : List JsString}

theorem blocked_cons {segment : JsString} :
  Blocked node (segment :: path) ↔
    (valueAt node []).isSome = true ∨
      Blocked ((JsMap.lookup segment node.children).getD newNode) path
  := by
  constructor
  · rintro ⟨p, hp, hvalue⟩
    cases p with
    | nil => exact .inl hvalue
    | cons k p =>
        obtain ⟨rfl, hrest⟩ := List.cons_prefix_cons.mp hp
        rw [← valueAt_child] at hvalue
        exact .inr ⟨p, hrest, hvalue⟩
  · rintro (hvalue | ⟨p, hp, hvalue⟩)
    · exact ⟨[], List.nil_prefix, hvalue⟩
    · rw [valueAt_child] at hvalue
      exact ⟨segment :: p, List.cons_prefix_cons.mpr ⟨rfl, hp⟩, hvalue⟩

/-- What insertion does to a tree. -/
structure Inserted (value : ConfigValue) (path : List JsString) (node node' : EnvNode) : Prop where
  values : ∀ q, valueAt node' q = if q = path then some value else valueAt node q
  distinct : node.Distinct → node'.Distinct
  nodes : ∀ q, (node'.at? q).isSome = true → (node.at? q).isSome = true ∨ q <+: path

/-- Insertion below a child. -/
theorem Inserted.below {value : ConfigValue} {child' : EnvNode} {segment : JsString}
    (h : Inserted value path ((JsMap.lookup segment node.children).getD newNode) child') :
  Inserted value (segment :: path) node (.node node.label (JsMap.put segment child' node.children))
  := by
  constructor
  case values =>
    intro q
    cases q with
    | nil => rw [if_neg (List.cons_ne_nil _ _).symm]; rfl
    | cons k q =>
        rw [valueAt_put]
        by_cases hk : k = segment
        · rw [if_pos hk, h.values q, hk, valueAt_child]
          simp only [List.cons.injEq, true_and]
        · rw [if_neg hk, if_neg (fun hpath => hk (List.cons.inj hpath).1)]
          rfl
  case distinct =>
    intro hdistinct
    refine hdistinct.put (h.distinct ?_) node.label segment
    cases hlookup : JsMap.lookup segment node.children with
    | none => exact Trie.Distinct.leaf _
    | some child => exact hdistinct.child hlookup
  case nodes =>
    intro q hq
    cases q with
    | nil => exact .inl rfl
    | cons k q =>
        rw [Trie.at?_put] at hq
        split at hq
        · rename_i hk
          obtain hchild | hbelow := h.nodes q hq
          · cases q with
            | nil => exact .inr (List.cons_prefix_cons.mpr ⟨hk, List.nil_prefix⟩)
            | cons l q =>
                left
                rw [hk, Trie.at?_cons]
                cases hlookup : JsMap.lookup segment node.children with
                | none =>
                    rw [hlookup, Option.getD_none] at hchild
                    rw [newNode, Trie.at?_leaf _ (List.cons_ne_nil l q)] at hchild
                    cases hchild
                | some child =>
                    rw [hlookup, Option.getD_some] at hchild
                    exact hchild
          · exact .inr (List.cons_prefix_cons.mpr ⟨hk, hbelow⟩)
        · exact .inl hq

/-- Insertion succeeds just when no value is at the path or above it. -/
theorem insertValue_spec (value : ConfigValue) (node : EnvNode) (path : List JsString) :
  (∃ e, insertValue value node path = .error e) ∧ Blocked node path ∨
    ∃ node', insertValue value node path = .ok node' ∧ ¬ Blocked node path ∧
      Inserted value path node node'
  := by
  induction path generalizing node with
  | nil =>
      rw [insertValue, blocked_nil]
      cases hoccupied : node.label.occupied with
      | true => exact .inl ⟨⟨_, if_pos rfl⟩, valueAt_nil_of_occupied hoccupied⟩
      | false =>
          right
          refine ⟨_, if_neg Bool.false_ne_true, ?_, ?_⟩
          · rw [valueAt_nil_of_free hoccupied]
            exact Bool.false_ne_true
          · constructor
            case values =>
              intro q
              cases q with
              | nil | cons => rfl
            case distinct => exact fun hdistinct => hdistinct.relabel _
            case nodes =>
              intro q hq
              cases q with
              | nil => exact .inl rfl
              | cons k q => exact .inl hq
  | cons segment path ih =>
      rw [insertValue, blocked_cons]
      cases hoccupied : node.label.occupied with
      | true => exact .inl ⟨⟨_, if_pos rfl⟩, .inl (valueAt_nil_of_occupied hoccupied)⟩
      | false =>
          rw [if_neg Bool.false_ne_true, valueAt_nil_of_free hoccupied]
          obtain ⟨⟨e, he⟩, hblocked⟩ | ⟨child', hchild, hfree, hinserted⟩ :=
            ih ((JsMap.lookup segment node.children).getD newNode)
          · left
            refine ⟨⟨e, ?_⟩, .inr hblocked⟩
            dsimp only
            rw [he]
            rfl
          · right
            refine ⟨_, ?_, ?_, hinserted.below⟩
            · dsimp only
              rw [hchild]
              rfl
            · rintro (⟨⟨⟩⟩ | hblocked)
              exact hfree hblocked

/-! ### Insertions -/

/-- Entries whose paths do not lead to a later path or beyond. -/
def Unobstructed (entries : List EnvEntry) : Prop :=
  entries.Pairwise (fun e f => ¬ e.path <+: f.path)

/-- What insertions do to a tree. -/
structure Collected (entries : List EnvEntry) (root root' : EnvNode) : Prop where
  values : ∀ q v, valueAt root' q = some v ↔
    (∃ e ∈ entries, e.path = q ∧ e.value = v) ∨ valueAt root q = some v
  distinct : root.Distinct → root'.Distinct
  nodes : ∀ q, (root'.at? q).isSome = true →
    (root.at? q).isSome = true ∨ ∃ e ∈ entries, q <+: e.path

theorem Blocked.inserted {e : EnvEntry} {root root' : EnvNode}
    (h : Inserted e.value e.path root root') (path : List JsString) :
  Blocked root' path ↔ e.path <+: path ∨ Blocked root path
  := by
  constructor
  · rintro ⟨p, hp, hvalue⟩
    rw [h.values] at hvalue
    split at hvalue
    · rename_i heq
      exact .inl (heq ▸ hp)
    · exact .inr ⟨p, hp, hvalue⟩
  · rintro (hbelow | ⟨p, hp, hvalue⟩)
    · refine ⟨e.path, hbelow, ?_⟩
      rw [h.values, if_pos rfl]
      rfl
    · refine ⟨p, hp, ?_⟩
      rw [h.values]
      split
      · rfl
      · exact hvalue

/-- Insertions succeed just when no path is blocked, and none obstructs a later one. -/
theorem insertEntries_spec (entries : List EnvEntry) (root : EnvNode) :
  (∃ e, insertEntries root entries = .error e) ∧
      ¬ (Unobstructed entries ∧ ∀ e ∈ entries, ¬ Blocked root e.path) ∨
    ∃ root', insertEntries root entries = .ok root' ∧ Unobstructed entries ∧
      (∀ e ∈ entries, ¬ Blocked root e.path) ∧ Collected entries root root'
  := by
  induction entries generalizing root with
  | nil =>
      right
      refine ⟨root, rfl, .nil, by simp, ?_⟩
      constructor
      case values => simp
      case distinct => exact id
      case nodes => exact fun q hq => .inl hq
  | cons e entries ih =>
      rw [insertEntries, insertEntry]
      obtain ⟨⟨failure, hfailure⟩, hblocked⟩ | ⟨root₁, hroot, hfree, hinserted⟩ :=
        insertValue_spec e.value root e.path
      · left
        refine ⟨⟨failure, ?_⟩, ?_⟩
        · rw [hfailure]
          rfl
        · rintro ⟨-, hall⟩
          exact hall e List.mem_cons_self hblocked
      · rw [hroot]
        obtain ⟨⟨failure, hfailure⟩, hobstructed⟩ | ⟨root', hroot', hun, hall, hcollected⟩ :=
          ih root₁
        · left
          refine ⟨⟨failure, hfailure⟩, ?_⟩
          rintro ⟨hun, hall⟩
          obtain ⟨hfirst, hun⟩ := List.pairwise_cons.mp hun
          refine hobstructed ⟨hun, ?_⟩
          intro f hf hblocked
          obtain hbelow | hblocked := (Blocked.inserted hinserted f.path).mp hblocked
          · exact hfirst f hf hbelow
          · exact hall f (List.mem_cons_of_mem e hf) hblocked
        · right
          have hpath (f : EnvEntry) (hf : f ∈ entries) :
              ¬ e.path <+: f.path ∧ ¬ Blocked root f.path := by
            have hnot := hall f hf
            rw [Blocked.inserted hinserted, not_or] at hnot
            exact hnot
          refine ⟨root', hroot', ?_, ?_, ?_⟩
          · exact List.pairwise_cons.mpr ⟨fun f hf => (hpath f hf).1, hun⟩
          · rintro f (_ | ⟨_, hf⟩)
            · exact hfree
            · exact (hpath f hf).2
          · constructor
            case values =>
              intro q v
              rw [hcollected.values, hinserted.values, List.exists_mem_cons_iff]
              by_cases hq : q = e.path
              · have hnone : valueAt root e.path = none := by
                  by_contra hsome
                  exact hfree ⟨e.path, List.prefix_rfl, Option.isSome_iff_ne_none.mpr hsome⟩
                rw [hq, if_pos rfl, hnone]
                simp [or_comm]
              · rw [if_neg hq]
                simp [Ne.symm hq]
            case distinct => exact fun hroot => hcollected.distinct (hinserted.distinct hroot)
            case nodes =>
              intro q hq
              rw [List.exists_mem_cons_iff]
              obtain hq | hq := hcollected.nodes q hq
              · obtain hq | hbelow := hinserted.nodes q hq
                · exact .inl hq
                · exact .inr (.inl hbelow)
              · exact .inr (.inr hq)

/-! ### The object of a tree -/

/-- The value at a path of objects. -/
def select : List JsString → ConfigValue → Option ConfigValue
  | [], value => some value
  | key :: path, .object properties =>
      (Json.property properties key).bind (fun value => select path value)
  | _ :: _, _ => none

/-- The configuration value of a child. -/
def childValue (host : StringHost) (child : EnvNode) : ConfigValue :=
  if child.label.occupied then child.label.value else .object (materializeNode host child)

theorem property_eq_lookup (properties : ConfigObject) (key : JsString) :
  Json.property properties key = JsMap.lookup key properties
  := by
  induction properties with
  | nil => rfl
  | cons p properties ih =>
      rw [JsMap.lookup, Json.property, List.find?_cons]
      by_cases hkey : p.1 = key
      · rw [decide_eq_true hkey, if_pos hkey]
        rfl
      · rw [decide_eq_false hkey, if_neg hkey]
        exact ih

variable {host : StringHost}

theorem materializeChildren_eq (children : List (JsString × EnvNode)) :
  materializeChildren host children = children.map (fun c => (c.1, childValue host c.2))
  := by
  induction children with
  | nil => rfl
  | cons c children ih => rw [materializeChildren, ih, List.map_cons, childValue]

theorem perm_materializeNode (node : EnvNode) :
  (materializeNode host node).Perm (node.children.map (fun c => (c.1, childValue host c.2)))
  := by
  obtain ⟨label, children⟩ := node
  rw [materializeNode, materializeChildren_eq]
  exact List.perm_insertionSort _ _

/-- The properties of the object of a node are the values of its children. -/
theorem property_materializeNode (h : node.Distinct) (key : JsString) :
  Json.property (materializeNode host node) key =
    (JsMap.lookup key node.children).map (childValue host)
  := by
  have hkeys : ((node.children.map (fun c => (c.1, childValue host c.2))).map Prod.fst).Nodup := by
    rw [List.map_map]
    exact h.keys
  rw [property_eq_lookup, ← JsMap.lookup_perm hkeys (perm_materializeNode node).symm,
    JsMap.lookup_map]

/-- A value that is not below another one is found at its path. -/
theorem select_valueAt (h : node.Distinct) (hpath : path ≠ []) {v : ConfigValue}
    (hvalue : valueAt node path = some v)
    (hfree : ∀ p, p <+: path → p ≠ [] → p ≠ path → valueAt node p = none) :
  select path (.object (materializeNode host node)) = some v
  := by
  induction path generalizing node with
  | nil => exact absurd rfl hpath
  | cons key path ih =>
      rw [select, property_materializeNode h]
      rw [valueAt_cons] at hvalue
      cases hchild : JsMap.lookup key node.children with
      | none =>
          rw [hchild] at hvalue
          cases hvalue
      | some child =>
          rw [hchild, Option.bind_some] at hvalue
          rw [Option.map_some, Option.bind_some, childValue]
          by_cases hrest : path = []
          · subst hrest
            rw [valueAt, Trie.at?_nil, Option.bind_some, EnvLabel.value?] at hvalue
            split at hvalue
            · rename_i hoccupied
              rw [if_pos hoccupied]
              exact hvalue
            · cases hvalue
          · have hbelow (p : List JsString) : valueAt node (key :: p) = valueAt child p := by
              rw [valueAt_cons, hchild, Option.bind_some]
            have hunoccupied : ¬ child.label.occupied = true := by
              intro hoccupied
              have hnone := hfree [key] (List.cons_prefix_cons.mpr ⟨rfl, List.nil_prefix⟩)
                (List.cons_ne_nil _ _) (fun heq => hrest (List.cons.inj heq).2.symm)
              rw [hbelow] at hnone
              have hsome := valueAt_nil_of_occupied hoccupied
              rw [hnone] at hsome
              cases hsome
            rw [if_neg hunoccupied]
            apply ih (h.child hchild) hrest hvalue
            intro p hp _ hne
            rw [← hbelow]
            exact hfree (key :: p) (List.cons_prefix_cons.mpr ⟨rfl, hp⟩) (List.cons_ne_nil _ _)
              (fun heq => hne (List.cons.inj heq).2)

/-- What is found at a path is a node of the tree, or inside a value. -/
theorem select_found (h : node.Distinct)
    (hfound : (select path (.object (materializeNode host node))).isSome = true) :
  (node.at? path).isSome = true ∨
    ∃ p, p <+: path ∧ p ≠ [] ∧ (valueAt node p).isSome = true
  := by
  induction path generalizing node with
  | nil => exact .inl rfl
  | cons key path ih =>
      rw [select, property_materializeNode h] at hfound
      cases hchild : JsMap.lookup key node.children with
      | none =>
          rw [hchild] at hfound
          cases hfound
      | some child =>
          have hbelow (p : List JsString) : valueAt node (key :: p) = valueAt child p := by
            rw [valueAt_cons, hchild, Option.bind_some]
          rw [hchild, Option.map_some, Option.bind_some, childValue] at hfound
          split at hfound
          · rename_i hoccupied
            right
            refine ⟨[key], List.cons_prefix_cons.mpr ⟨rfl, List.nil_prefix⟩,
              List.cons_ne_nil _ _, ?_⟩
            rw [hbelow]
            exact valueAt_nil_of_occupied hoccupied
          · obtain hnode | ⟨p, hp, -, hvalue⟩ := ih (h.child hchild) hfound
            · left
              rw [Trie.at?_cons, hchild]
              exact hnode
            · right
              refine ⟨key :: p, List.cons_prefix_cons.mpr ⟨rfl, hp⟩, List.cons_ne_nil _ _, ?_⟩
              rw [hbelow]
              exact hvalue

/-! ### Admitted trees -/

/-- The keys of a tree are safe, and its values admitted. -/
def AdmittedTree (node : EnvNode) : Prop :=
  (∀ path key, (node.at? (path ++ [key])).isSome = true → isUnsafeKey key = false) ∧
    ∀ path v, valueAt node path = some v → isAdmitted v = true

theorem AdmittedTree.child {child : EnvNode} (h : AdmittedTree node) {key : JsString}
    (hchild : JsMap.lookup key node.children = some child) :
  AdmittedTree child
  := by
  constructor
  · intro path k hk
    apply h.1 (key :: path) k
    rw [List.cons_append, Trie.at?_cons, hchild]
    exact hk
  · intro path v hv
    apply h.2 (key :: path) v
    rw [valueAt_cons, hchild]
    exact hv

mutual

/-- The object of an admitted tree is admitted. -/
theorem haveAdmitted_materializeNode : ∀ node : EnvNode, node.Distinct → AdmittedTree node →
    haveAdmitted (materializeNode host node) = true
  | .node label children, hdistinct, h => by
      have hchildren : ∀ c ∈ children, isUnsafeKey c.1 = false ∧ c.2.Distinct ∧
          AdmittedTree c.2 := by
        intro c hc
        have hlookup : JsMap.lookup c.1 (Trie.node label children).children = some c.2 :=
          (JsMap.lookup_eq_some hdistinct.keys).mpr hc
        refine ⟨?_, hdistinct.child hlookup, h.child hlookup⟩
        apply h.1 [] c.1
        rw [List.nil_append, Trie.at?_cons, hlookup]
        rfl
      rw [haveAdmitted_iff]
      intro p hp
      rw [(perm_materializeNode _).mem_iff, ← materializeChildren_eq] at hp
      exact haveAdmitted_materializeChildren children hchildren p hp

theorem haveAdmitted_materializeChildren : ∀ children : List (JsString × EnvNode),
    (∀ c ∈ children, isUnsafeKey c.1 = false ∧ c.2.Distinct ∧ AdmittedTree c.2) →
    ∀ p ∈ materializeChildren host children, isUnsafeKey p.1 = false ∧ isAdmitted p.2 = true
  | [], _, p, hp => by
      rw [materializeChildren] at hp
      exact absurd hp List.not_mem_nil
  | (key, child) :: children, h, p, hp => by
      obtain ⟨hkey, hdistinct, hadmitted⟩ := h (key, child) List.mem_cons_self
      rw [materializeChildren, List.mem_cons] at hp
      obtain rfl | hp := hp
      · refine ⟨hkey, ?_⟩
        dsimp only
        split
        · rename_i hoccupied
          apply hadmitted.2 []
          rw [valueAt, Trie.at?_nil, Option.bind_some, EnvLabel.value?, if_pos hoccupied]
        · rw [isAdmitted]
          exact haveAdmitted_materializeNode child hdistinct hadmitted
      · exact haveAdmitted_materializeChildren children
          (fun c hc => h c (List.mem_cons_of_mem _ hc)) p hp

end

end Config
