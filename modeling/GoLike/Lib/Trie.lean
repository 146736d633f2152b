import GoLike.Lib.JsMap

/-!
# Trees of paths

A tree has a label at every node, and its children have keys. A path of keys leads to a node
of the tree, or to none.
-/

/-- A tree with labels at its nodes, whose children have keys. -/
inductive Trie (κ α : Type) where
  | node (label : α) (children : List (κ × Trie κ α))

namespace Trie

variable {κ α : Type} [DecidableEq κ]

def label : Trie κ α → α
  | .node label _ => label

def children : Trie κ α → List (κ × Trie κ α)
  | .node _ children => children

/-- The node at a path. -/
def at? (t : Trie κ α) : List κ → Option (Trie κ α)
  | [] => some t
  | k :: path =>
      match JsMap.lookup k t.children with
      | none => none
      | some child => child.at? path

@[simp]
theorem at?_nil (t : Trie κ α) :
  t.at? [] = some t
  := rfl

theorem at?_cons (t : Trie κ α) (k : κ) (path : List κ) :
  t.at? (k :: path) = (JsMap.lookup k t.children).bind (fun child => child.at? path)
  := by
  rw [at?]
  cases JsMap.lookup k t.children with
  | none | some => rfl

/-- A tree without children has only its root. -/
theorem at?_leaf (label : α) {path : List κ} (h : path ≠ []) :
  (node label []).at? path = none
  := by
  cases path with
  | nil => exact absurd rfl h
  | cons k path => rfl

/-- Setting a child changes the nodes at the paths that begin with its key. -/
theorem at?_put (label : α) (children : List (κ × Trie κ α)) (k : κ) (child : Trie κ α)
    (l : κ) (path : List κ) :
  (node label (JsMap.put k child children)).at? (l :: path) =
    if l = k then child.at? path else (node label children).at? (l :: path)
  := by
  rw [at?_cons, at?_cons, Trie.children, Trie.children, JsMap.lookup_put]
  split
  · rfl
  · rfl

/-- The children of every node have different keys. -/
def Distinct (t : Trie κ α) : Prop :=
  ∀ path s, t.at? path = some s → (s.children.map Prod.fst).Nodup

namespace Distinct

theorem leaf (label : α) :
  Distinct (node (κ := κ) label [])
  := by
  intro path s hs
  cases path with
  | nil =>
      cases hs
      exact List.nodup_nil
  | cons k path => cases hs

theorem keys {t : Trie κ α} (h : Distinct t) :
  (t.children.map Prod.fst).Nodup
  := h [] t rfl

theorem child {t s : Trie κ α} (h : Distinct t) {k : κ} (hs : JsMap.lookup k t.children = some s) :
  Distinct s
  := by
  intro path r hr
  apply h (k :: path)
  rw [at?_cons, hs]
  exact hr

/-- Setting a child keeps the keys different. -/
theorem put {t s : Trie κ α} (h : Distinct t) (hs : Distinct s) (label : α) (k : κ) :
  Distinct (node label (JsMap.put k s t.children))
  := by
  intro path r hr
  cases path with
  | nil =>
      cases hr
      rw [Trie.children, JsMap.keys_put]
      split
      · exact h.keys
      · rename_i hk
        apply h.keys.append (List.nodup_singleton k)
        rw [List.disjoint_singleton]
        exact hk
  | cons l path =>
      rw [at?_put] at hr
      split at hr
      · exact hs path r hr
      · exact h (l :: path) r hr

/-- A new label changes no keys. -/
theorem relabel {t : Trie κ α} (h : Distinct t) (label : α) :
  Distinct (node label t.children)
  := by
  intro path r hr
  cases path with
  | nil =>
      cases hr
      exact h.keys
  | cons k path => exact h (k :: path) r hr

end Distinct

end Trie
