import GoLike.Lib.Utf8
import Mathlib.Data.List.DropRight

/-!
# Splitting, joining and trimming strings

A string is split at the occurrences of a separator that are found from the left and do not
overlap. Joining the parts with the separator gives the string back. White space and line
terminators at both ends of a text are removed as `String.prototype.trim` does.
-/

namespace JsString

/-- The string from an index on. -/
def slice (s : JsString) (start : ℕ) : JsString := ⟨s.units.drop start⟩

/-- Join strings with a separator. -/
def joinWith (separator : JsString) : List JsString → JsString
  | [] => .empty
  | [part] => part
  | part :: next :: parts => part ++ separator ++ joinWith separator (next :: parts)

/-- Split code units at a separator, after a number of units that belong to the last separator,
with the units of the part that has begun. -/
def splitUnits (separator : List UInt16) : ℕ → List UInt16 → List UInt16 → List JsString
  | _, current, [] => [⟨current⟩]
  | skipped + 1, current, _ :: rest => splitUnits separator skipped current rest
  | 0, current, u :: rest =>
      if separator.isPrefixOf (u :: rest) then
        ⟨current⟩ :: splitUnits separator (separator.length - 1) [] rest
      else splitUnits separator 0 (current ++ [u]) rest

/-- Split a string at a separator that is not empty. -/
def split (s separator : JsString) : List JsString := splitUnits separator.units 0 [] s.units

theorem splitUnits_ne_nil (separator : List UInt16) (skipped : ℕ) (current rest : List UInt16) :
  splitUnits separator skipped current rest ≠ []
  := by
  fun_induction splitUnits separator skipped current rest with
  | case1 => exact List.cons_ne_nil _ _
  | case2 _ _ _ _ ih => exact ih
  | case3 => exact List.cons_ne_nil _ _
  | case4 _ _ _ _ ih => exact ih

theorem joinWith_cons (separator part : JsString) {parts : List JsString} (h : parts ≠ []) :
  joinWith separator (part :: parts) = part ++ separator ++ joinWith separator parts
  := by
  cases parts with
  | nil => exact absurd rfl h
  | cons next parts => rfl

theorem units_append (s t : JsString) :
  (s ++ t).units = s.units ++ t.units
  := rfl

theorem append_assoc (r s t : JsString) :
  r ++ s ++ t = r ++ (s ++ t)
  := congrArg JsString.mk (List.append_assoc r.units s.units t.units)

theorem joinWith_splitUnits {separator : JsString} (hseparator : separator.units ≠ []) (skipped : ℕ)
    (current rest : List UInt16) :
  (joinWith separator (splitUnits separator.units skipped current rest)).units =
    current ++ rest.drop skipped
  := by
  fun_induction splitUnits separator.units skipped current rest with
  | case1 skipped current => rw [List.drop_nil, List.append_nil, joinWith]
  | case2 current skipped u rest ih => rw [ih, List.drop_succ_cons]
  | case3 current u rest hbelow ih =>
      obtain ⟨more, hmore⟩ := List.isPrefixOf_iff_prefix.mp hbelow
      obtain ⟨v, tail, hunits⟩ := List.exists_cons_of_ne_nil hseparator
      rw [hunits, List.cons_append, List.cons.injEq] at hmore
      rw [joinWith_cons _ _ (splitUnits_ne_nil _ _ _ _), units_append, units_append, ih, hunits,
        ← hmore.1, ← hmore.2]
      simp
  | case4 current u rest hbelow ih =>
      rw [ih, List.drop_zero, List.drop_zero, List.append_assoc, List.singleton_append]

/-- Joining the parts of a string with the separator gives the string. -/
theorem joinWith_split (s : JsString) {separator : JsString} (h : separator.units ≠ []) :
  joinWith separator (s.split separator) = s
  := by
  have hunits := joinWith_splitUnits h 0 [] s.units
  rw [List.nil_append, List.drop_zero] at hunits
  exact congrArg JsString.mk hunits

/-- The join of more parts begins with the join of the first ones and a separator. -/
theorem joinWith_append (separator : JsString) {parts more : List JsString} (hparts : parts ≠ [])
    (hmore : more ≠ []) :
  joinWith separator (parts ++ more) =
    joinWith separator parts ++ separator ++ joinWith separator more
  := by
  induction parts with
  | nil => exact absurd rfl hparts
  | cons part parts ih =>
      cases parts with
      | nil => exact joinWith_cons separator part hmore
      | cons next parts =>
          have happend := ih (List.cons_ne_nil next parts)
          rw [List.cons_append, List.cons_append, joinWith, ← List.cons_append, happend, joinWith]
          exact congrArg JsString.mk (by simp [units_append, List.append_assoc])

theorem mem_joinWith {separator part : JsString} {parts : List JsString} {u : UInt16}
    (hpart : part ∈ parts) (hu : u ∈ part.units) :
  u ∈ (joinWith separator parts).units
  := by
  induction parts with
  | nil => cases hpart
  | cons first parts ih =>
      cases parts with
      | nil =>
          obtain rfl := List.mem_singleton.1 hpart
          exact hu
      | cons next parts =>
          rw [joinWith, units_append, units_append]
          obtain rfl | hpart := List.mem_cons.1 hpart
          · exact List.mem_append_left _ (List.mem_append_left _ hu)
          · exact List.mem_append_right _ (ih hpart)

/-! ### Splitting a join -/

theorem splitUnits_skip {separator current skipped rest : List UInt16} :
  splitUnits separator skipped.length current (skipped ++ rest) = splitUnits separator 0 current rest
  := by
  induction skipped with
  | nil => rfl
  | cons u skipped ih => exact ih

/-- Units before which the separator does not begin are those of the first part. -/
theorem splitUnits_first {separator : List UInt16} (hseparator : separator ≠ [])
    {part rest : List UInt16}
    (hpart : ∀ before after, part = before ++ after → after ≠ [] →
      ¬ separator <+: after ++ separator ++ rest) (current : List UInt16) :
  splitUnits separator 0 current (part ++ separator ++ rest) =
    ⟨current ++ part⟩ :: splitUnits separator 0 [] rest
  := by
  induction part generalizing current with
  | nil =>
      obtain ⟨u, tail, rfl⟩ := List.exists_cons_of_ne_nil hseparator
      have hbegins : (u :: tail).isPrefixOf (u :: (tail ++ rest)) = true :=
        List.isPrefixOf_iff_prefix.2 (List.prefix_append (u :: tail) rest)
      rw [List.nil_append, List.cons_append, splitUnits, if_pos hbegins, List.length_cons,
        Nat.add_sub_cancel, splitUnits_skip, List.append_nil]
  | cons u part ih =>
      have hbegins : ¬ separator.isPrefixOf (u :: (part ++ separator ++ rest)) = true := by
        rw [List.isPrefixOf_iff_prefix]
        exact hpart [] (u :: part) rfl (List.cons_ne_nil u part)
      have hrest := ih (fun before after heq hne => hpart (u :: before) after (by rw [heq]; rfl) hne)
        (current ++ [u])
      rw [List.cons_append, List.cons_append, splitUnits, if_neg hbegins, hrest, List.append_assoc]
      rfl

/-- Units in which the separator does not begin are one part. -/
theorem splitUnits_free {separator rest : List UInt16}
    (hfree : ¬ separator <:+: rest) (current : List UInt16) :
  splitUnits separator 0 current rest = [⟨current ++ rest⟩]
  := by
  induction rest generalizing current with
  | nil => rw [splitUnits, List.append_nil]
  | cons u rest ih =>
      have hbegins : ¬ separator.isPrefixOf (u :: rest) = true := by
        rw [List.isPrefixOf_iff_prefix]
        exact fun h => hfree h.isInfix
      have hrest : ¬ separator <:+: rest := fun h => hfree (h.trans (List.suffix_cons u rest).isInfix)
      rw [splitUnits, if_neg hbegins, ih hrest, List.append_assoc]
      rfl

/-- A string in which the separator does not occur is its only part. -/
theorem split_free {s separator : JsString}
    (hfree : ¬ separator.units <:+: s.units) :
  s.split separator = [s]
  := splitUnits_free hfree []

/-- The first part of a string ends where the separator first begins. -/
theorem split_first {part rest separator : JsString} (hseparator : separator.units ≠ [])
    (hpart : ∀ before after, part.units = before ++ after → after ≠ [] →
      ¬ separator.units <+: after ++ separator.units ++ rest.units) :
  (part ++ separator ++ rest).split separator = part :: rest.split separator
  := splitUnits_first hseparator hpart []

/-- Parts without the separating unit are the parts of their join. -/
theorem split_joinWith {u : UInt16} {parts : List JsString} (hne : parts ≠ [])
    (hparts : ∀ part ∈ parts, u ∉ part.units) :
  (joinWith ⟨[u]⟩ parts).split ⟨[u]⟩ = parts
  := by
  induction parts with
  | nil => exact absurd rfl hne
  | cons part parts ih =>
      have hpart := hparts part List.mem_cons_self
      cases parts with
      | nil =>
          apply split_free
          rintro ⟨before, after, heq⟩
          apply hpart
          rw [← show before ++ [u] ++ after = part.units from heq]
          simp
      | cons next parts =>
          rw [joinWith, split_first (List.cons_ne_nil u []),
            ih (List.cons_ne_nil next parts) (fun p hp => hparts p (List.mem_cons_of_mem _ hp))]
          rintro before after heq hafter ⟨more, hmore⟩
          obtain ⟨v, after, rfl⟩ := List.exists_cons_of_ne_nil hafter
          obtain ⟨rfl, -⟩ := List.cons.inj hmore
          apply hpart
          rw [heq]
          simp

theorem splitUnits_append {u : UInt16} (before after current : List UInt16) :
  splitUnits [u] 0 current (before ++ u :: after) =
    splitUnits [u] 0 current before ++ splitUnits [u] 0 [] after
  := by
  induction before generalizing current with
  | nil => simp [splitUnits]
  | cons v before ih =>
      rw [List.cons_append, splitUnits, splitUnits]
      by_cases hv : u = v
      · subst hv
        simp [ih]
      · simp [hv, ih]

/-- The parts of a string are those before a separating unit and those behind it. -/
theorem split_append {u : UInt16} (before after : JsString) :
  (before ++ ⟨[u]⟩ ++ after).split ⟨[u]⟩ = before.split ⟨[u]⟩ ++ after.split ⟨[u]⟩
  := by
  have hunits : before.units ++ [u] ++ after.units = before.units ++ u :: after.units := by simp
  unfold split
  rw [units_append, units_append, hunits, splitUnits_append]

/-! ### Trimming -/

/-- The character is white space or a line terminator. -/
def isSpace (c : Char) : Bool :=
  let n := c.toNat
  (9 ≤ n && n ≤ 13) || n = 0x20 || n = 0xA0 || n = 0x1680 || (0x2000 ≤ n && n ≤ 0x200A) ||
    n = 0x2028 || n = 0x2029 || n = 0x202F || n = 0x205F || n = 0x3000 || n = 0xFEFF

/-- The text without white space at both ends. -/
def trim (text : List Char) : List Char := (text.dropWhile isSpace).rdropWhile isSpace

/-- The string without white space at both ends. -/
def trimmed (s : JsString) : JsString :=
  let isSpaceUnit : UInt16 → Bool := fun u => isSpace (charOf u.toNat)
  ⟨(s.units.dropWhile isSpaceUnit).rdropWhile isSpaceUnit⟩

end JsString
