import Mathlib.Data.List.Basic
import Mathlib.Order.Nat

/-!
# Change logs and the streams that deliver them

A change log says what each revision of a store changes. A reader that has seen a revision
follows the log on a stream: some frames carry the changes up to a revision that were not
sent before, and some mark that all changes up to a revision have been sent.

A stream delivers the changes after a floor when each one that was sent is carried by a
frame that has not been read, before every mark that includes it. What is sent and what is
read keeps this, and a mark that is read next tells that nothing has changed.
-/

namespace ChangeLog

variable {σ φ : Type}

/-! ### Logs -/

/-- What each revision changes: the state after it, or nothing that is observed. -/
abbrev Timeline (σ : Type) : Type := ℕ → Option σ

/-- The state at a revision. -/
def stateAt (initial : σ) (timeline : Timeline σ) : ℕ → σ
  | 0 => initial
  | r + 1 =>
      match timeline (r + 1) with
      | some state => state
      | none => stateAt initial timeline r

/-- No revision after the first one, up to the second one, changes the state. -/
def Unchanged (timeline : Timeline σ) (a b : ℕ) : Prop := ∀ r, a < r → r ≤ b → timeline r = none

variable {timeline : Timeline σ}

theorem Unchanged.mono {a b a' b' : ℕ} (h : Unchanged timeline a b) (ha : a ≤ a') (hb : b' ≤ b) :
  Unchanged timeline a' b'
  := fun r hr hr' => h r (ha.trans_lt hr) (hr'.trans hb)

theorem Unchanged.refl (a : ℕ) :
  Unchanged timeline a a
  := fun _ hr hr' => absurd hr' (not_le.mpr hr)

/-- The state stays the same while nothing changes. -/
theorem stateAt_unchanged {initial : σ} {a b : ℕ} (hle : a ≤ b) (h : Unchanged timeline a b) :
  stateAt initial timeline b = stateAt initial timeline a
  := by
  induction b, hle using Nat.le_induction with
  | base => rfl
  | succ b hle ih =>
      rw [stateAt, h (b + 1) (Nat.lt_succ_of_le hle) le_rfl]
      exact ih (h.mono le_rfl b.le_succ)

/-! ### Streams -/

/-- What the frames of a stream tell. -/
structure Frames (φ : Type) where
  /-- The frame carries the changes up to this revision. -/
  carries : φ → Option ℕ
  /-- The frame marks that the changes up to this revision have been sent. -/
  marks : φ → Option ℕ

/-- The frame carries the change of a revision. -/
def Frames.Covers (F : Frames φ) (frame : φ) (r : ℕ) : Prop := ∃ upTo, F.carries frame = some upTo ∧ r ≤ upTo

/-- The changes after `floor` up to `sent` are carried by the frames, before every mark. -/
structure Delivers (F : Frames φ) (timeline : Timeline σ) (floor sent : ℕ) (inbox : List φ) :
    Prop where
  covered : ∀ r, floor < r → r ≤ sent → timeline r ≠ none → ∃ frame ∈ inbox, F.Covers frame r
  ordered : ∀ {before after : List φ} {frame : φ} {mark : ℕ}, inbox = before ++ frame :: after →
    F.marks frame = some mark → ∀ r, floor < r → r ≤ mark → timeline r ≠ none →
    ∃ frame' ∈ before, F.Covers frame' r

variable {F : Frames φ} {floor sent : ℕ} {inbox : List φ}

/-- A stream on which nothing has been sent. -/
theorem delivers_nil (h : Unchanged timeline floor sent) :
  Delivers F timeline floor sent []
  := by
  constructor
  case covered =>
    intro r hr hle hchange
    exact absurd (h r hr hle) hchange
  case ordered =>
    intro before after frame mark hinbox
    simp at hinbox

theorem Delivers.mono {floor' : ℕ} (h : Delivers F timeline floor sent inbox)
    (hfloor : floor ≤ floor') :
  Delivers F timeline floor' sent inbox
  := by
  constructor
  case covered =>
    intro r hr
    exact h.covered r (hfloor.trans_lt hr)
  case ordered =>
    intro before after frame mark hinbox hmark r hr
    exact h.ordered hinbox hmark r (hfloor.trans_lt hr)

/-- The position of a frame in a list with one more frame. -/
theorem append_eq_append_cons {l before after : List φ} {frame frame' : φ}
    (h : l ++ [frame] = before ++ frame' :: after) :
  (l = before ∧ frame = frame') ∨ ∃ rest, l = before ++ frame' :: rest
  := by
  obtain ⟨rest, rfl, hrest⟩ | ⟨rest, rfl, hrest⟩ := List.append_eq_append_iff.mp h
  · cases rest with
    | nil =>
        simp only [List.nil_append, List.cons.injEq] at hrest
        simp [hrest.1]
    | cons f rest => simp at hrest
  · cases rest with
    | nil =>
        simp only [List.nil_append, List.cons.injEq] at hrest
        simp [hrest.1]
    | cons f rest =>
        simp only [List.cons_append, List.cons.injEq] at hrest
        right
        use rest
        rw [hrest.1]

/-- A frame is sent that carries all changes up to `sent'`, and whose mark is true. -/
theorem Delivers.send {sent' : ℕ} {frame : φ} (h : Delivers F timeline floor sent inbox)
    (hcovered : ∀ r, sent < r → r ≤ sent' → timeline r ≠ none → F.Covers frame r)
    (hmark : ∀ mark, F.marks frame = some mark → Unchanged timeline sent mark) :
  Delivers F timeline floor sent' (inbox ++ [frame])
  := by
  constructor
  case covered =>
    intro r hr hle hchange
    by_cases hold : r ≤ sent
    · obtain ⟨frame', hmem, hcovers⟩ := h.covered r hr hold hchange
      exact ⟨frame', List.mem_append_left _ hmem, hcovers⟩
    · use frame, by simp
      exact hcovered r (not_le.mp hold) hle hchange
  case ordered =>
    intro before after frame' mark hinbox hmark' r hr hle hchange
    obtain ⟨rfl, rfl⟩ | ⟨rest, hrest⟩ := append_eq_append_cons hinbox
    · apply h.covered r hr _ hchange
      by_contra hlater
      exact hchange (hmark mark hmark' r (not_le.mp hlater) hle)
    · exact h.ordered hrest hmark' r hr hle hchange

/-- A frame is sent that carries no change. -/
theorem Delivers.send_mark {frame : φ} (h : Delivers F timeline floor sent inbox)
    (hmark : ∀ mark, F.marks frame = some mark → Unchanged timeline sent mark) :
  Delivers F timeline floor sent (inbox ++ [frame])
  := by
  apply h.send _ hmark
  intro r hr hle
  exact absurd hle (not_le.mpr hr)

/-- A frame is read that carries no change after `floor`. -/
theorem Delivers.read {frame : φ} {rest : List φ}
    (h : Delivers F timeline floor sent (frame :: rest))
    (hframe : ∀ r, floor < r → ¬ F.Covers frame r) :
  Delivers F timeline floor sent rest
  := by
  constructor
  case covered =>
    intro r hr hle hchange
    obtain ⟨frame', hmem, hcovers⟩ := h.covered r hr hle hchange
    obtain rfl | hmem := List.mem_cons.mp hmem
    · exact absurd hcovers (hframe r hr)
    · exact ⟨frame', hmem, hcovers⟩
  case ordered =>
    intro before after frame' mark hrest hmark r hr hle hchange
    have hinbox : frame :: rest = (frame :: before) ++ frame' :: after := by
      rw [List.cons_append, ← hrest]
    obtain ⟨frame'', hmem, hcovers⟩ := h.ordered hinbox hmark r hr hle hchange
    obtain rfl | hmem := List.mem_cons.mp hmem
    · exact absurd hcovers (hframe r hr)
    · exact ⟨frame'', hmem, hcovers⟩

/-- Nothing has changed up to a mark that is read next. -/
theorem Delivers.unchanged_mark {frame : φ} {rest : List φ} {mark : ℕ}
    (h : Delivers F timeline floor sent (frame :: rest)) (hmark : F.marks frame = some mark) :
  Unchanged timeline floor mark
  := by
  intro r hr hle
  by_contra hchange
  have hinbox : frame :: rest = [] ++ frame :: rest := rfl
  obtain ⟨frame', hmem, -⟩ := h.ordered hinbox hmark r hr hle hchange
  exact absurd hmem List.not_mem_nil

/-- Nothing has changed when every frame has been read. -/
theorem Delivers.unchanged_nil (h : Delivers F timeline floor sent []) :
  Unchanged timeline floor sent
  := by
  intro r hr hle
  by_contra hchange
  obtain ⟨frame, hmem, -⟩ := h.covered r hr hle hchange
  exact absurd hmem List.not_mem_nil

end ChangeLog
