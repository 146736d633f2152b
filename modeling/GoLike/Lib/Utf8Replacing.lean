import GoLike.Lib.Utf8Lossy
import GoLike.Lib.Utf8Stream

/-!
# Decoding with replacement, as bytes arrive

The text decoder of JavaScript that is not fatal, on a stream. What it yields mirrors the bytes: a
byte below `0x80` is a character by itself, and the other characters stand for bytes from `0x80` on.
A text that is cut at bytes below `0x80` is thus cut like its bytes, whatever the other bytes are.
-/

namespace JsString

/-! ### Characters that mirror bytes -/

/-- The bytes of a byte order mark. -/
def markBytes : List UInt8 := [0xEF, 0xBB, 0xBF]

/-- A character that stands for bytes. -/
inductive Cell : List UInt8 → Char → Prop where
  | ascii {b : UInt8} (hb : b.toNat < 0x80) : Cell [b] (charOf b.toNat)
  | other {group : List UInt8} {c : Char} (hne : group ≠ []) (hgroup : ∀ b ∈ group, 0x80 ≤ b.toNat)
      (hc : 0x80 ≤ c.toNat) (hmark : c = byteOrderMark → group = markBytes) : Cell group c

/-- Characters that stand for bytes, one after the other. -/
inductive Mirrors : List UInt8 → List Char → Prop where
  | nil : Mirrors [] []
  | cons {group bytes : List UInt8} {c : Char} {cs : List Char} (hcell : Cell group c)
      (h : Mirrors bytes cs) : Mirrors (group ++ bytes) (c :: cs)

theorem toNat_charOf_small {n : ℕ} (h : n < 0x80) :
  (charOf n).toNat = n
  := toNat_charOf (Or.inl (by omega))

theorem small_of_all {word : List UInt8} (h : (word.all fun b => b.toNat < 0x80) = true) :
  ∀ b ∈ word, b.toNat < 0x80
  := by
  intro b hb
  exact of_decide_eq_true (List.all_eq_true.1 h b hb)

variable {b : UInt8}

theorem charOf_inj_small {b' : UInt8} (hb : b.toNat < 0x80) (hb' : b'.toNat < 0x80) :
  charOf b.toNat = charOf b'.toNat ↔ b = b'
  := by
  constructor
  · intro h
    have hnat := congrArg Char.toNat h
    rw [toNat_charOf_small hb, toNat_charOf_small hb'] at hnat
    exact UInt8.toNat_inj.1 hnat
  · rintro rfl
    rfl

variable {c : Char}

/-- A cell of a byte below `0x80`. -/
theorem Cell.head_iff {group : List UInt8} (h : Cell group c) (hb : b.toNat < 0x80) :
  (∃ rest, group = b :: rest) ↔ c = charOf b.toNat
  := by
  cases h with
  | @ascii b' hb' =>
      constructor
      · rintro ⟨rest, h⟩
        rw [(List.cons.inj h).1]
      · intro h
        rw [(charOf_inj_small hb' hb).1 h]
        exact ⟨[], rfl⟩
  | other hne hgroup hc _ =>
      constructor
      · rintro ⟨rest, rfl⟩
        have := hgroup b List.mem_cons_self
        omega
      · rintro rfl
        rw [toNat_charOf_small hb] at hc
        omega

theorem Mirrors.single {group : List UInt8} (h : Cell group c) :
  Mirrors group [c]
  := by
  simpa using Mirrors.cons h .nil

variable {bytes : List UInt8} {cs : List Char}

theorem Mirrors.append {more : List UInt8} {ds : List Char} (h : Mirrors bytes cs)
    (hmore : Mirrors more ds) :
  Mirrors (bytes ++ more) (cs ++ ds)
  := by
  induction h with
  | nil => exact hmore
  | cons hcell _ ih =>
      rw [List.append_assoc]
      exact .cons hcell ih

theorem Mirrors.eq_nil_iff (h : Mirrors bytes cs) :
  bytes = [] ↔ cs = []
  := by
  cases h with
  | nil => simp
  | cons hcell _ =>
      have hne : ∀ {group : List UInt8} {c : Char}, Cell group c → group ≠ [] := by
        intro group c hcell
        cases hcell with
        | ascii => simp
        | other hne => exact hne
      simp [hne hcell]

/-- A byte below `0x80` comes first just when its character does, and the rest mirrors the rest. -/
theorem Mirrors.uncons (hb : b.toNat < 0x80) (h : Mirrors bytes cs) :
  (∃ bytes' cs', bytes = b :: bytes' ∧ cs = charOf b.toNat :: cs' ∧ Mirrors bytes' cs') ∨
    bytes.head? ≠ some b ∧ cs.head? ≠ some (charOf b.toNat)
  := by
  cases h with
  | nil => simp
  | @cons group bytes c cs hcell h =>
      by_cases hc : c = charOf b.toNat
      · left
        cases hcell with
        | @ascii b' hb' =>
            obtain rfl := (charOf_inj_small hb' hb).1 hc
            exact ⟨bytes, cs, rfl, rfl, h⟩
        | other _ _ hlarge _ =>
            rw [hc, toNat_charOf_small hb] at hlarge
            omega
      · right
        constructor
        · intro hhead
          apply hc
          apply (hcell.head_iff hb).1
          cases hgroup : group with
          | nil =>
              rw [hgroup] at hcell
              cases hcell with
              | other hne => exact absurd rfl hne
          | cons b' rest =>
              rw [hgroup, List.cons_append, List.head?_cons, Option.some.injEq] at hhead
              exact ⟨rest, by rw [hhead]⟩
        · simpa using hc

theorem Mirrors.head_iff (hb : b.toNat < 0x80) (h : Mirrors bytes cs) :
  bytes.head? = some b ↔ cs.head? = some (charOf b.toNat)
  := by
  obtain ⟨bytes', cs', rfl, rfl, -⟩ | ⟨hbytes, hcs⟩ := h.uncons hb
  · simp
  · simp [hbytes, hcs]

/-- Bytes below `0x80` come first just when their characters do. -/
theorem Mirrors.prefix (word : List UInt8) (hword : ∀ b ∈ word, b.toNat < 0x80)
    (h : Mirrors bytes cs) :
  (word <+: bytes ∧ (word.map fun b => charOf b.toNat) <+: cs ∧
      Mirrors (bytes.drop word.length) (cs.drop word.length)) ∨
    ¬ word <+: bytes ∧ ¬ (word.map fun b => charOf b.toNat) <+: cs
  := by
  induction word generalizing bytes cs with
  | nil => simpa using h
  | cons b word ih =>
      obtain ⟨bytes', cs', rfl, rfl, h'⟩ | ⟨hbytes, hcs⟩ := h.uncons (hword b List.mem_cons_self)
      · have ih' := ih (fun b hb => hword b (List.mem_cons_of_mem _ hb)) h'
        simpa [List.cons_prefix_cons] using ih'
      · right
        constructor
        · rintro ⟨t, rfl⟩
          simp at hbytes
        · rintro ⟨t, rfl⟩
          simp at hcs

/-- Bytes below `0x80` are mirrored by their characters only. -/
theorem Mirrors.eq_iff {word : List UInt8} (hword : ∀ b ∈ word, b.toNat < 0x80)
    (h : Mirrors bytes cs) :
  bytes = word ↔ cs = word.map fun b => charOf b.toNat
  := by
  obtain ⟨hbytes, hcs, hrest⟩ | ⟨hbytes, hcs⟩ := h.prefix word hword
  · obtain ⟨tail, rfl⟩ := hbytes
    obtain ⟨tail', rfl⟩ := hcs
    rw [List.drop_left] at hrest
    have hlength : (word.map fun b => charOf b.toNat).length = word.length := by simp
    rw [← hlength, List.drop_left] at hrest
    simpa using hrest.eq_nil_iff
  · constructor
    · rintro rfl
      exact absurd List.prefix_rfl hbytes
    · rintro rfl
      exact absurd List.prefix_rfl hcs

/-- A text is cut at a byte below `0x80` like its bytes. -/
theorem Mirrors.cut (hb : b.toNat < 0x80) (h : Mirrors bytes cs) :
  Mirrors (bytes.takeWhile fun b' => b' ≠ b) (cs.takeWhile fun c => c ≠ charOf b.toNat) ∧
    Mirrors (bytes.dropWhile fun b' => b' ≠ b) (cs.dropWhile fun c => c ≠ charOf b.toNat)
  := by
  induction h with
  | nil => exact ⟨.nil, .nil⟩
  | @cons group bytes c cs hcell h ih =>
      by_cases hc : c = charOf b.toNat
      · obtain ⟨rest, rfl⟩ := (hcell.head_iff hb).2 hc
        have hall := Mirrors.cons hcell h
        rw [hc] at hall ⊢
        simpa using ⟨Mirrors.nil, hall⟩
      · have hgroup : ∀ b' ∈ group, b' ≠ b := by
          cases hcell with
          | @ascii b' hb' =>
              intro b'' hb'' heq
              rw [List.mem_singleton.1 hb''] at heq
              exact hc ((charOf_inj_small hb' hb).2 heq)
          | other _ hlarge _ _ =>
              rintro b' hb' rfl
              have := hlarge b' hb'
              omega
        have hpos : ∀ b' ∈ group, decide (b' ≠ b) = true := fun b' hb' => decide_eq_true (hgroup b' hb')
        rw [List.takeWhile_append_of_pos hpos, List.dropWhile_append_of_pos hpos,
          List.takeWhile_cons_of_pos (by simpa using hc), List.dropWhile_cons_of_pos (by simpa using hc)]
        exact ⟨.cons hcell ih.1, ih.2⟩

/-- A mark comes first only when its bytes do. -/
theorem Mirrors.mark (h : Mirrors bytes cs) (hmark : cs.head? = some byteOrderMark) :
  markBytes <+: bytes
  := by
  cases h with
  | nil => simp at hmark
  | cons hcell _ =>
      rw [List.head?_cons, Option.some.injEq] at hmark
      cases hcell with
      | ascii hb =>
          have hnat := congrArg Char.toNat hmark
          rw [toNat_charOf_small hb, show byteOrderMark.toNat = 0xFEFF from rfl] at hnat
          omega
      | other _ _ _ hbytes =>
          rw [hbytes hmark]
          exact List.prefix_append _ _

/-- The bytes of a mark at the beginning of a text. -/
def markOf (cs : List Char) : List UInt8 := if cs.head? = some byteOrderMark then markBytes else []

/-- A text without its mark mirrors the bytes behind it. -/
theorem Mirrors.strip (h : Mirrors bytes cs) :
  ∃ rest, bytes = markOf cs ++ rest ∧ Mirrors rest (stripMark cs)
  := by
  by_cases hmark : cs.head? = some byteOrderMark
  · rw [markOf, if_pos hmark]
    cases h with
    | nil => simp at hmark
    | @cons group bytes c cs hcell h =>
        have hbytes := (Mirrors.single hcell).mark (by simpa using hmark)
        rw [List.head?_cons, Option.some.injEq] at hmark
        rw [stripMark, if_pos hmark]
        cases hcell with
        | ascii hb =>
            have := hbytes.length_le
            simp [markBytes] at this
        | other _ _ _ hgroup => exact ⟨bytes, by rw [hgroup hmark], h⟩
  · rw [markOf, if_neg hmark, stripMark_eq hmark]
    exact ⟨bytes, rfl, h⟩

/-! ### The text of complete bytes -/

namespace Utf8Decoder

/-- One byte, with the characters that it completes or replaces. -/
def stepReplacing (d : Utf8Decoder) (b : UInt8) : Utf8Decoder × List Char :=
  match step d b with
  | some stepped => stepped
  | none =>
      if d.needed = 0 then (start, [replacementCharacter])
      else
        match first b with
        | some (d', cs) => (d', replacementCharacter :: cs)
        | none => (start, [replacementCharacter, replacementCharacter])

/-- Bytes one after the other. -/
def runReplacing (d : Utf8Decoder) : List UInt8 → Utf8Decoder × List Char
  | [] => (d, [])
  | b :: bytes =>
      let stepped := stepReplacing d b
      let rest := runReplacing stepped.1 bytes
      (rest.1, stepped.2 ++ rest.2)

/-- What the end of the stream yields. -/
def flush (d : Utf8Decoder) : List Char := if d.needed = 0 then [] else [replacementCharacter]

/-- The bytes of the character that the decoder has begun. -/
inductive Reading : Utf8Decoder → List UInt8 → Prop where
  | start : Reading start []
  | two {a : UInt8} (ha : 0xC2 ≤ a.toNat ∧ a.toNat ≤ 0xDF) :
      Reading ⟨a.toNat % 32, 1, 1, 0x80, 0xBF⟩ [a]
  | three {a : UInt8} (ha : 0xE0 ≤ a.toNat ∧ a.toNat ≤ 0xEF) :
      Reading ⟨a.toNat % 16, 1, 2, if a.toNat = 0xE0 then 0xA0 else 0x80,
        if a.toNat = 0xED then 0x9F else 0xBF⟩ [a]
  | four {a : UInt8} (ha : 0xF0 ≤ a.toNat ∧ a.toNat ≤ 0xF4) :
      Reading ⟨a.toNat % 8, 1, 3, if a.toNat = 0xF0 then 0x90 else 0x80,
        if a.toNat = 0xF4 then 0x8F else 0xBF⟩ [a]
  | threeMore {a b : UInt8} (ha : 0xE0 ≤ a.toNat ∧ a.toNat ≤ 0xEF)
      (hb : (if a.toNat = 0xE0 then 0xA0 else 0x80) ≤ b.toNat ∧ b.toNat ≤ 0xBF) :
      Reading ⟨a.toNat % 16 * 64 + b.toNat % 64, 2, 1, 0x80, 0xBF⟩ [a, b]
  | fourMore {a b : UInt8} (ha : 0xF0 ≤ a.toNat ∧ a.toNat ≤ 0xF4)
      (hb : (if a.toNat = 0xF0 then 0x90 else 0x80) ≤ b.toNat ∧ b.toNat ≤ 0xBF) :
      Reading ⟨a.toNat % 8 * 64 + b.toNat % 64, 2, 2, 0x80, 0xBF⟩ [a, b]
  | fourLast {a b c : UInt8} (ha : 0xF0 ≤ a.toNat ∧ a.toNat ≤ 0xF4)
      (hb : (if a.toNat = 0xF0 then 0x90 else 0x80) ≤ b.toNat ∧ b.toNat ≤ 0xBF)
      (hc : 0x80 ≤ c.toNat ∧ c.toNat ≤ 0xBF) :
      Reading ⟨(a.toNat % 8 * 64 + b.toNat % 64) * 64 + c.toNat % 64, 3, 1, 0x80, 0xBF⟩ [a, b, c]

variable {d : Utf8Decoder} {group : List UInt8}

theorem Reading.large (h : Reading d group) :
  ∀ b ∈ group, 0x80 ≤ b.toNat
  := by
  intro b hb
  cases h with
  | start => simp at hb
  | two | three | four => simp at hb; subst hb; omega
  | threeMore ha hb' | fourMore ha hb' =>
      simp at hb; split_ifs at hb' <;> obtain rfl | rfl := hb <;> omega
  | fourLast ha hb' hc =>
      simp at hb; split_ifs at hb' <;> obtain rfl | rfl | rfl := hb <;> omega

/-- The decoder is between two characters just when none has begun. -/
theorem Reading.needed (h : Reading d group) :
  d.needed = 0 ↔ group = []
  := by
  cases h <;> simp [Utf8Decoder.start]

/-- The end of the stream replaces the bytes of a character that is not complete. -/
theorem Reading.flush (h : Reading d group) :
  Mirrors group d.flush
  := by
  unfold Utf8Decoder.flush
  split
  · rename_i hneeded
    rw [h.needed.1 hneeded]
    exact .nil
  · rename_i hneeded
    apply Mirrors.single
    apply Cell.other
    · intro hgroup
      exact hneeded (h.needed.2 hgroup)
    · exact h.large
    · decide
    · intro hmark
      exact absurd hmark (by decide)

end Utf8Decoder

end JsString
