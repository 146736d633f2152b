import Mathlib.Data.List.Chain

/-!
# Short paths that repeat no node

In a graph where each node lists the nodes that follow it, a node admits a bound when every
path from it has at most that many nodes and visits no node twice. A depth-first descent checks
this with the bound that is left and the nodes above, and `admits_iff` says that it does.
-/

namespace BoundedPaths

variable {ν : Type*} {next : ν → List ν}

/-- The list of nodes is a path. -/
def IsPath (next : ν → List ν) (path : List ν) : Prop := path.IsChain (fun a b => b ∈ next a)

/-- A descent from a node meets no node twice, none of the nodes above, and goes at most so
deep. -/
def Admits (next : ν → List ν) : ℕ → List ν → ν → Prop
  | 0, _, _ => False
  | n + 1, above, a => a ∉ above ∧ ∀ b ∈ next a, Admits next n (a :: above) b

/-- What a descent checks, in terms of the paths from the node. -/
theorem admits_iff (n : ℕ) (above : List ν) (a : ν) :
  Admits next n above a ↔ ∀ path, IsPath next (a :: path) →
    (a :: path).length ≤ n ∧ (a :: path).Nodup ∧ ∀ b ∈ a :: path, b ∉ above
  := by
  induction n generalizing above a with
  | zero =>
      constructor
      · exact False.elim
      · intro h
        have hlength := (h [] (List.isChain_singleton a)).1
        simp at hlength
  | succ n ih =>
      constructor
      · rintro ⟨habove, hnext⟩ path hpath
        cases path with
        | nil => simpa using habove
        | cons b path =>
            obtain ⟨hb, hrest⟩ := List.isChain_cons_cons.1 hpath
            obtain ⟨hlength, hnodup, hnot⟩ := (ih (a :: above) b).1 (hnext b hb) path hrest
            refine ⟨Nat.succ_le_succ hlength, List.nodup_cons.2 ⟨?_, hnodup⟩, ?_⟩
            · intro ha
              exact hnot a ha List.mem_cons_self
            · intro c hc
              obtain rfl | hc := List.mem_cons.1 hc
              · exact habove
              · exact fun hmem => hnot c hc (List.mem_cons_of_mem a hmem)
      · intro h
        constructor
        · exact (h [] (List.isChain_singleton a)).2.2 a List.mem_cons_self
        · intro b hb
          apply (ih (a :: above) b).2
          intro path hpath
          have hlong : IsPath next (a :: b :: path) := List.isChain_cons_cons.2 ⟨hb, hpath⟩
          obtain ⟨hlength, hnodup, hnot⟩ := h (b :: path) hlong
          refine ⟨Nat.le_of_succ_le_succ hlength, (List.nodup_cons.1 hnodup).2, ?_⟩
          intro c hc hmem
          obtain rfl | hmem := List.mem_cons.1 hmem
          · exact (List.nodup_cons.1 hnodup).1 hc
          · exact hnot c (List.mem_cons_of_mem a hc) hmem

end BoundedPaths
