import GoLike.Lib.Utf8

/-!
# Decoding UTF-8 as it arrives

The fatal text decoder of JavaScript on a stream: it is fed one byte after the other, yields the
characters that are complete, and keeps what it needs of the one that is not. How the bytes are
cut into chunks does not matter.
-/

namespace JsString

/-- The bytes of characters. -/
def utf8 (cs : List Char) : List UInt8 := cs.flatMap String.utf8EncodeChar

@[simp] theorem utf8_nil : utf8 [] = [] := rfl

theorem utf8_cons (c : Char) (cs : List Char) :
  utf8 (c :: cs) = String.utf8EncodeChar c ++ utf8 cs
  := List.flatMap_cons

theorem utf8_append (cs ds : List Char) :
  utf8 (cs ++ ds) = utf8 cs ++ utf8 ds
  := List.flatMap_append

/-- The decoder between two bytes. -/
structure Utf8Decoder where
  /-- The bits of the character that is not complete. -/
  point : ℕ
  /-- The number of bytes of this character that were read. -/
  seen : ℕ
  /-- The number of bytes that it still needs. -/
  needed : ℕ
  /-- The bounds of the next of them. -/
  lower : ℕ
  upper : ℕ
  deriving DecidableEq

namespace Utf8Decoder

/-- The decoder between two characters. -/
def start : Utf8Decoder := ⟨0, 0, 0, 0x80, 0xBF⟩

/-- The first byte of a character; `none` when it is not one. -/
def first (b : UInt8) : Option (Utf8Decoder × List Char) :=
  let n := b.toNat
  if n ≤ 0x7F then some (start, [charOf n])
  else if 0xC2 ≤ n ∧ n ≤ 0xDF then some (⟨n % 32, 1, 1, 0x80, 0xBF⟩, [])
  else if 0xE0 ≤ n ∧ n ≤ 0xEF then
    some (⟨n % 16, 1, 2, if n = 0xE0 then 0xA0 else 0x80, if n = 0xED then 0x9F else 0xBF⟩, [])
  else if 0xF0 ≤ n ∧ n ≤ 0xF4 then
    some (⟨n % 8, 1, 3, if n = 0xF0 then 0x90 else 0x80, if n = 0xF4 then 0x8F else 0xBF⟩, [])
  else none

/-- Another byte of a character; `none` when it does not continue the character. -/
def next (d : Utf8Decoder) (b : UInt8) : Option (Utf8Decoder × List Char) :=
  let n := b.toNat
  if d.lower ≤ n ∧ n ≤ d.upper then
    let point := d.point * 64 + n % 64
    if d.needed = 1 then some (start, [charOf point])
    else some (⟨point, d.seen + 1, d.needed - 1, 0x80, 0xBF⟩, [])
  else none

/-- One byte, with the characters that it completes. -/
def step (d : Utf8Decoder) (b : UInt8) : Option (Utf8Decoder × List Char) :=
  if d.needed = 0 then first b else next d b

/-- Bytes one after the other, with the characters that they complete. -/
def run (d : Utf8Decoder) : List UInt8 → Option (Utf8Decoder × List Char)
  | [] => some (d, [])
  | b :: bytes => do
      let stepped ← step d b
      let rest ← run stepped.1 bytes
      some (rest.1, stepped.2 ++ rest.2)

/-! ### Pieces -/

/-- Two pieces are decoded one after the other. -/
theorem run_append (d : Utf8Decoder) (bytes more : List UInt8) :
  run d (bytes ++ more) = (run d bytes).bind (fun left =>
    (run left.1 more).map (fun right => (right.1, left.2 ++ right.2)))
  := by
  induction bytes generalizing d with
  | nil => simp [run]
  | cons b bytes ih =>
      rw [List.cons_append, run, run]
      cases step d b with
      | none => rfl
      | some stepped =>
          simp only [Option.bind_eq_bind, Option.bind_some, ih]
          cases run stepped.1 bytes with
          | none => rfl
          | some left =>
              simp only [Option.bind_some]
              cases run left.1 more with
              | none => rfl
              | some right => simp only [Option.map_some, Option.bind_some, List.append_assoc]

variable {d d' : Utf8Decoder} {bytes : List UInt8} {cs : List Char}

theorem run_append_of_eq (h : run d bytes = some (d', cs)) (more : List UInt8) :
  run d (bytes ++ more) = (run d' more).map (fun right => (right.1, cs ++ right.2))
  := by
  rw [run_append, h, Option.bind_some]

/-! ### Characters -/

variable {b : UInt8}

theorem first_small (h : b.toNat ≤ 0x7F) :
  first b = some (start, [charOf b.toNat])
  := by
  simp only [first]
  rw [if_pos h]

theorem first_two (h : 0xC2 ≤ b.toNat) (h' : b.toNat ≤ 0xDF) :
  first b = some (⟨b.toNat % 32, 1, 1, 0x80, 0xBF⟩, [])
  := by
  simp only [first]
  rw [if_neg (by omega), if_pos ⟨h, h'⟩]

theorem first_three (h : 0xE0 ≤ b.toNat) (h' : b.toNat ≤ 0xEF) :
  first b = some (⟨b.toNat % 16, 1, 2, if b.toNat = 0xE0 then 0xA0 else 0x80,
    if b.toNat = 0xED then 0x9F else 0xBF⟩, [])
  := by
  simp only [first]
  rw [if_neg (by omega), if_neg (by omega), if_pos ⟨h, h'⟩]

theorem first_four (h : 0xF0 ≤ b.toNat) (h' : b.toNat ≤ 0xF4) :
  first b = some (⟨b.toNat % 8, 1, 3, if b.toNat = 0xF0 then 0x90 else 0x80,
    if b.toNat = 0xF4 then 0x8F else 0xBF⟩, [])
  := by
  simp only [first]
  rw [if_neg (by omega), if_neg (by omega), if_neg (by omega), if_pos ⟨h, h'⟩]

theorem step_last (hbounds : d.lower ≤ b.toNat ∧ b.toNat ≤ d.upper) (hneeded : d.needed = 1) :
  step d b = some (start, [charOf (d.point * 64 + b.toNat % 64)])
  := by
  simp only [step, next]
  rw [if_neg (by omega), if_pos hbounds, if_pos hneeded]

theorem step_more (hbounds : d.lower ≤ b.toNat ∧ b.toNat ≤ d.upper) (hneeded : 1 < d.needed) :
  step d b = some (⟨d.point * 64 + b.toNat % 64, d.seen + 1, d.needed - 1, 0x80, 0xBF⟩, [])
  := by
  simp only [step, next]
  rw [if_neg (by omega), if_pos hbounds, if_neg (by omega)]

theorem run_cons (bytes : List UInt8) (h : step d b = some (d', cs)) :
  run d (b :: bytes) = (run d' bytes).map (fun rest => (rest.1, cs ++ rest.2))
  := by
  rw [run, h]
  simp only [Option.bind_eq_bind, Option.bind_some]
  cases run d' bytes with
  | none | some => rfl

theorem toNat_ofNat {n : ℕ} (h : n < 256) :
  (UInt8.ofNat n).toNat = n
  := by
  rw [UInt8.toNat_ofNat']
  omega

/-- The bytes of a character are decoded to it. -/
theorem run_utf8EncodeChar (c : Char) :
  run start (String.utf8EncodeChar c) = some (start, [c])
  := by
  have hvalid : c.toNat.isValidChar := c.valid
  simp only [Nat.isValidChar] at hvalid
  have hval : c.val.toNat = c.toNat := rfl
  generalize hn : c.toNat = n at hvalid hval
  have hc : charOf n = c := by rw [← hn, charOf_toNat]
  rw [String.utf8EncodeChar, hval]
  by_cases h1 : n ≤ 0x7F
  · rw [if_pos h1]
    have hb := toNat_ofNat (n := n) (by omega)
    have hfirst := first_small (b := UInt8.ofNat n) (by omega)
    rw [hb, hc] at hfirst
    rw [run_cons [] (d := start) hfirst]
    rfl
  · rw [if_neg h1]
    by_cases h2 : n ≤ 0x7FF
    · rw [if_pos h2]
      have hb := toNat_ofNat (n := n / 64 % 32 + 0xC0) (by omega)
      have hb₂ := toNat_ofNat (n := n % 64 + 0x80) (by omega)
      have hfirst := first_two (b := UInt8.ofNat (n / 64 % 32 + 0xC0)) (by omega) (by omega)
      have hlast := step_last (d := ⟨(n / 64 % 32 + 0xC0) % 32, 1, 1, 0x80, 0xBF⟩)
        (b := UInt8.ofNat (n % 64 + 0x80)) (by dsimp only; omega) rfl
      have hpoint : (n / 64 % 32 + 0xC0) % 32 * 64 + (n % 64 + 0x80) % 64 = n := by omega
      rw [hb] at hfirst
      dsimp only at hlast
      rw [hb₂, hpoint, hc] at hlast
      rw [run_cons _ (d := start) hfirst, run_cons _ hlast]
      rfl
    · rw [if_neg h2]
      by_cases h3 : n ≤ 0xFFFF
      · rw [if_pos h3]
        have hb := toNat_ofNat (n := n / 4096 % 16 + 0xE0) (by omega)
        have hb₂ := toNat_ofNat (n := n / 64 % 64 + 0x80) (by omega)
        have hb₃ := toNat_ofNat (n := n % 64 + 0x80) (by omega)
        have hfirst := first_three (b := UInt8.ofNat (n / 4096 % 16 + 0xE0)) (by omega) (by omega)
        rw [hb] at hfirst
        have hmore := step_more (b := UInt8.ofNat (n / 64 % 64 + 0x80))
          (d := ⟨(n / 4096 % 16 + 0xE0) % 16, 1, 2,
            if n / 4096 % 16 + 0xE0 = 0xE0 then 0xA0 else 0x80,
            if n / 4096 % 16 + 0xE0 = 0xED then 0x9F else 0xBF⟩)
          (by dsimp only; split_ifs <;> omega) Nat.one_lt_two
        dsimp only at hmore
        rw [hb₂] at hmore
        have hlast := step_last (b := UInt8.ofNat (n % 64 + 0x80))
          (d := ⟨(n / 4096 % 16 + 0xE0) % 16 * 64 + (n / 64 % 64 + 0x80) % 64, 1 + 1, 2 - 1, 0x80,
            0xBF⟩) (by dsimp only; omega) rfl
        have hpoint : ((n / 4096 % 16 + 0xE0) % 16 * 64 + (n / 64 % 64 + 0x80) % 64) * 64 +
          (n % 64 + 0x80) % 64 = n := by omega
        dsimp only at hlast
        rw [hb₃, hpoint, hc] at hlast
        rw [run_cons _ (d := start) hfirst, run_cons _ hmore, run_cons _ hlast]
        rfl
      · rw [if_neg h3]
        have hb := toNat_ofNat (n := n / 262144 % 8 + 0xF0) (by omega)
        have hb₂ := toNat_ofNat (n := n / 4096 % 64 + 0x80) (by omega)
        have hb₃ := toNat_ofNat (n := n / 64 % 64 + 0x80) (by omega)
        have hb₄ := toNat_ofNat (n := n % 64 + 0x80) (by omega)
        have hfirst := first_four (b := UInt8.ofNat (n / 262144 % 8 + 0xF0)) (by omega) (by omega)
        rw [hb] at hfirst
        have hmore := step_more (b := UInt8.ofNat (n / 4096 % 64 + 0x80))
          (d := ⟨(n / 262144 % 8 + 0xF0) % 8, 1, 3,
            if n / 262144 % 8 + 0xF0 = 0xF0 then 0x90 else 0x80,
            if n / 262144 % 8 + 0xF0 = 0xF4 then 0x8F else 0xBF⟩)
          (by dsimp only; split_ifs <;> omega) (by dsimp only; omega)
        dsimp only at hmore
        rw [hb₂] at hmore
        have hthird := step_more (b := UInt8.ofNat (n / 64 % 64 + 0x80))
          (d := ⟨(n / 262144 % 8 + 0xF0) % 8 * 64 + (n / 4096 % 64 + 0x80) % 64, 1 + 1, 3 - 1,
            0x80, 0xBF⟩) (by dsimp only; omega) Nat.one_lt_two
        dsimp only at hthird
        rw [hb₃] at hthird
        have hlast := step_last (b := UInt8.ofNat (n % 64 + 0x80))
          (d := ⟨((n / 262144 % 8 + 0xF0) % 8 * 64 + (n / 4096 % 64 + 0x80) % 64) * 64 +
            (n / 64 % 64 + 0x80) % 64, 1 + 1 + 1, 3 - 1 - 1, 0x80, 0xBF⟩)
          (by dsimp only; omega) rfl
        have hpoint : (((n / 262144 % 8 + 0xF0) % 8 * 64 + (n / 4096 % 64 + 0x80) % 64) * 64 +
          (n / 64 % 64 + 0x80) % 64) * 64 + (n % 64 + 0x80) % 64 = n := by omega
        dsimp only at hlast
        rw [hb₄, hpoint, hc] at hlast
        rw [run_cons _ (d := start) hfirst, run_cons _ hmore, run_cons _ hthird, run_cons _ hlast]
        rfl

/-- The decoder has read some bytes of a character that is not complete, or none. -/
def undecoded (d : Utf8Decoder) : ℕ := if d.needed = 0 then 0 else d.seen

/-- A byte completes a character, or is one more of those that are not decoded. -/
theorem step_cases (h : step d b = some (d', cs)) :
  (∃ c, cs = [c] ∧ d' = start) ∨
    (cs = [] ∧ d'.needed ≠ 0 ∧ d'.undecoded = d.undecoded + 1)
  := by
  rw [step] at h
  by_cases hneeded : d.needed = 0
  · have hzero : d.undecoded = 0 := by rw [undecoded, if_pos hneeded]
    rw [if_pos hneeded] at h
    simp only [first] at h
    rw [hzero]
    split_ifs at h <;> rw [Option.some.injEq, Prod.mk.injEq] at h <;> obtain ⟨rfl, rfl⟩ := h
    · exact .inl ⟨_, rfl, rfl⟩
    all_goals exact .inr ⟨rfl, Nat.succ_ne_zero _, rfl⟩
  · have hseen : d.undecoded = d.seen := by rw [undecoded, if_neg hneeded]
    rw [if_neg hneeded] at h
    simp only [next] at h
    split_ifs at h with hbounds hone
    · rw [Option.some.injEq, Prod.mk.injEq] at h
      obtain ⟨rfl, rfl⟩ := h
      exact .inl ⟨_, rfl, rfl⟩
    · rw [Option.some.injEq, Prod.mk.injEq] at h
      obtain ⟨rfl, rfl⟩ := h
      have hmore : d.needed - 1 ≠ 0 := by omega
      refine .inr ⟨rfl, hmore, ?_⟩
      rw [hseen, undecoded, if_neg hmore]

/-- Bytes that complete no character are all undecoded. -/
theorem run_nil (h : run d bytes = some (d', [])) :
  d'.undecoded = d.undecoded + bytes.length ∧ (bytes ≠ [] → d'.needed ≠ 0)
  := by
  induction bytes generalizing d with
  | nil =>
      rw [run, Option.some.injEq, Prod.mk.injEq] at h
      rw [← h.1]
      exact ⟨rfl, fun hne => absurd rfl hne⟩
  | cons b bytes ih =>
      rw [run] at h
      cases hstep : step d b with
      | none =>
          rw [hstep] at h
          cases h
      | some stepped =>
          rw [hstep] at h
          simp only [Option.bind_eq_bind, Option.bind_some] at h
          cases hrest : run stepped.1 bytes with
          | none =>
              rw [hrest] at h
              cases h
          | some rest =>
              rw [hrest, Option.bind_some, Option.some.injEq, Prod.mk.injEq,
                List.append_eq_nil_iff] at h
              obtain ⟨rfl, hnil, hnil'⟩ := h
              obtain ⟨c, hc, -⟩ | ⟨-, hneeded, hundecoded⟩ := step_cases hstep
              · rw [hc] at hnil
                cases hnil
              · have hrest' : run stepped.1 bytes = some (rest.1, []) := by
                  rw [hrest, ← hnil']
                obtain ⟨hcount, hne⟩ := ih hrest'
                rw [hcount, hundecoded, List.length_cons]
                refine ⟨by omega, fun _ => ?_⟩
                by_cases hbytes : bytes = []
                · subst hbytes
                  rw [run, Option.some.injEq, Prod.mk.injEq] at hrest'
                  rw [← hrest'.1]
                  exact hneeded
                · exact hne hbytes

/-- The first bytes of a character, but not all of them, decode to nothing. -/
theorem run_within {c : Char} {left : List UInt8} (h : bytes ++ left = String.utf8EncodeChar c)
    (hleft : left ≠ []) :
  ∃ d, run start bytes = some (d, [])
  := by
  have hchar := run_utf8EncodeChar c
  rw [← h, run_append] at hchar
  cases hbytes : run start bytes with
  | none =>
      rw [hbytes] at hchar
      cases hchar
  | some decoded =>
      obtain ⟨d, cs⟩ := decoded
      rw [hbytes, Option.bind_some, Option.map_eq_some_iff] at hchar
      obtain ⟨⟨d', es⟩, hrest, heq⟩ := hchar
      rw [Prod.mk.injEq] at heq
      obtain ⟨rfl, hcs⟩ := heq
      cases cs with
      | nil => exact ⟨d, rfl⟩
      | cons c' cs =>
          rw [List.cons_append, List.cons.injEq, List.append_eq_nil_iff] at hcs
          obtain ⟨-, -, rfl⟩ := hcs
          exact absurd rfl ((run_nil hrest).2 hleft)

/-- The bytes of characters are decoded to them. -/
theorem run_utf8 (cs : List Char) :
  run start (utf8 cs) = some (start, cs)
  := by
  induction cs with
  | nil => rfl
  | cons c cs ih =>
      rw [utf8_cons, run_append_of_eq (run_utf8EncodeChar c), ih]
      rfl

/-- Where the decoder is after the first bytes of a text: behind some of its characters, with a
part of the next one that is not complete. -/
theorem run_beginning {rest : List UInt8} (h : bytes ++ rest = utf8 cs) :
  ∃ ds es part d, cs = ds ++ es ∧ bytes = utf8 ds ++ part ∧ part ++ rest = utf8 es ∧
    run start bytes = some (d, ds) ∧ run start part = some (d, [])
  := by
  induction cs generalizing bytes with
  | nil =>
      rw [utf8_nil, List.append_eq_nil_iff] at h
      rw [h.1, h.2]
      exact ⟨[], [], [], start, rfl, rfl, rfl, rfl, rfl⟩
  | cons c cs ih =>
      rw [utf8_cons] at h
      obtain ⟨left, hchar, hrest⟩ | ⟨more, hbytes, hmore⟩ := List.append_eq_append_iff.mp h
      · by_cases hleft : left = []
        · subst hleft
          rw [List.append_nil] at hchar
          refine ⟨[c], cs, [], start, rfl, ?_, hrest, ?_, rfl⟩
          · rw [utf8_cons, utf8_nil, List.append_nil, List.append_nil, hchar]
          · rw [← hchar]
            exact run_utf8EncodeChar c
        · -- The bytes end within the character, so that nothing has been decoded.
          obtain ⟨d, hrun⟩ := run_within (hchar.symm) hleft
          refine ⟨[], c :: cs, bytes, d, rfl, rfl, ?_, hrun, hrun⟩
          rw [hrest, ← List.append_assoc, ← hchar, utf8_cons]
      · obtain ⟨ds, es, part, d, rfl, hpart, hsplit, hrun, hrun'⟩ := ih hmore.symm
        refine ⟨c :: ds, es, part, d, rfl, ?_, hsplit, ?_, hrun'⟩
        · rw [hbytes, hpart, utf8_cons, List.append_assoc]
        · rw [hbytes, run_append_of_eq (run_utf8EncodeChar c), hrun]
          rfl

end Utf8Decoder

end JsString
