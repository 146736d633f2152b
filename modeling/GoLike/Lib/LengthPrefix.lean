import GoLike.Lib.JsString

/-!
# Strings with their lengths

A string is written after its length and a colon. Strings that are written one after the other
in this way can be read back, whatever they contain.
-/

namespace JsString

/-- The units of a string after its length and a colon. -/
def prefixedUnits (s : JsString) : List UInt16 := (ofNat s.units.length).units ++ 58 :: s.units

/-- A string after its length and a colon. -/
def prefixed (s : JsString) : JsString := ⟨prefixedUnits s⟩

/-- Strings one after the other. -/
def join (l : List JsString) : JsString := ⟨l.flatMap units⟩

/-- The units of a decimal string are not colons. -/
theorem colon_notMem_ofNat (n : ℕ) :
  58 ∉ (ofNat n).units
  := by
  intro h
  rw [ofNat] at h
  split at h
  · exact absurd (List.mem_singleton.mp h) (by decide)
  · rw [List.mem_reverse, List.mem_map] at h
    obtain ⟨d, hd, hunit⟩ := h
    have hdigit : d < 10 := Nat.digits_lt_base (by decide) hd
    have hnat := congrArg UInt16.toNat hunit
    rw [digitUnit_toNat hdigit] at hnat
    have hcolon : (58 : UInt16).toNat = 58 := rfl
    omega

/-- What stands before the first colon is determined. -/
theorem append_colon_inj {before before' after after' : List UInt16} (h : 58 ∉ before)
    (h' : 58 ∉ before') (heq : before ++ 58 :: after = before' ++ 58 :: after') :
  before = before' ∧ after = after'
  := by
  induction before generalizing before' with
  | nil =>
      cases before' with
      | nil => exact ⟨rfl, (List.cons.inj heq).2⟩
      | cons u before' =>
          rw [List.cons_append, List.nil_append, List.cons.injEq] at heq
          exact absurd (heq.1 ▸ List.mem_cons_self) h'
  | cons u before ih =>
      cases before' with
      | nil =>
          rw [List.cons_append, List.nil_append, List.cons.injEq] at heq
          exact absurd (heq.1 ▸ List.mem_cons_self) h
      | cons u' before' =>
          rw [List.cons_append, List.cons_append, List.cons.injEq] at heq
          obtain ⟨hbefore, hafter⟩ := ih (fun hmem => h (List.mem_cons_of_mem _ hmem))
            (fun hmem => h' (List.mem_cons_of_mem _ hmem)) heq.2
          exact ⟨by rw [heq.1, hbefore], hafter⟩

/-- A string with its length is read back, whatever follows. -/
theorem prefixedUnits_append_inj {s t : JsString} {rest rest' : List UInt16}
    (h : prefixedUnits s ++ rest = prefixedUnits t ++ rest') :
  s = t ∧ rest = rest'
  := by
  rw [prefixedUnits, prefixedUnits, List.append_assoc, List.append_assoc, List.cons_append,
    List.cons_append] at h
  obtain ⟨hlength, happend⟩ :=
    append_colon_inj (colon_notMem_ofNat _) (colon_notMem_ofNat _) h
  have hunits : s.units.length = t.units.length := by
    apply ofNat_injective
    exact congrArg JsString.mk hlength
  obtain ⟨hst, hrest⟩ := List.append_inj happend hunits
  exact ⟨congrArg JsString.mk hst, hrest⟩

/-- Strings with their lengths, one after the other. -/
def joinPrefixed (l : List JsString) : JsString := join (l.map prefixed)

theorem joinPrefixed_injective :
  Function.Injective joinPrefixed
  := by
  intro l l' h
  have hunits : (l.map prefixed).flatMap units = (l'.map prefixed).flatMap units :=
    congrArg units h
  rw [List.flatMap_map, List.flatMap_map] at hunits
  clear h
  induction l generalizing l' with
  | nil =>
      cases l' with
      | nil => rfl
      | cons t l' =>
          rw [List.flatMap_nil, List.flatMap_cons] at hunits
          have hcolon : (58 : UInt16) ∈ ([] : List UInt16) := by
            rw [hunits]
            simp [prefixed, prefixedUnits]
          exact absurd hcolon List.not_mem_nil
  | cons s l ih =>
      cases l' with
      | nil =>
          rw [List.flatMap_nil, List.flatMap_cons] at hunits
          have hcolon : (58 : UInt16) ∈ ([] : List UInt16) := by
            rw [← hunits]
            simp [prefixed, prefixedUnits]
          exact absurd hcolon List.not_mem_nil
      | cons t l' =>
          rw [List.flatMap_cons, List.flatMap_cons] at hunits
          obtain ⟨rfl, hrest⟩ := prefixedUnits_append_inj hunits
          rw [ih hrest]

end JsString
