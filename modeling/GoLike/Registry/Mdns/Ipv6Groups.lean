import GoLike.Lib.Fallible
import GoLike.Registry.Mdns.Ipv6

/-!
# The groups of IPv6 literals

What the parser reads between colons are pieces: groups of hexadecimal digits, and the two
placeholders that it puts for a dotted IPv4 address. The text of pieces is read back as the pieces,
also when it consists of two halves with `::` between them.
-/

open JsString

namespace Registry.Mdns

/-! ### IPv4 literals -/

variable {part : JsString}

theorem ipv4Octet_eq_ok {o : UInt8} :
  ipv4Octet part = .ok o ↔ part = ofNat o.toNat
  := by
  constructor
  · intro h
    unfold ipv4Octet at h
    split at h
    · cases h
    · rename_i hform
      split at h
      · cases h
      · rename_i hvalue
        cases h
        have hlt : part.decimalValue % 256 = part.decimalValue := by omega
        rw [UInt8.toNat_ofNat', hlt]
        exact (ofNat_decimalValue (not_not.1 hform).1).symm
  · rintro rfl
    have hlength : (ofNat o.toNat).units.length ≤ 3 := by
      have hlt : o.toNat < 10 ^ 3 := lt_trans o.toNat_lt (by decide)
      rw [ofNat]
      split
      · decide
      · rw [List.length_reverse, List.length_map]
        exact (Nat.digits_length_le_iff (by decide) _).2 hlt
    have hle : ¬ (ofNat o.toNat).decimalValue > 255 := by
      have := o.toNat_lt
      rw [decimalValue_ofNat]
      omega
    rw [ipv4Octet, if_neg (not_not.2 ⟨isDecimal_ofNat _, hlength⟩), if_neg hle, decimalValue_ofNat,
      UInt8.ofNat_toNat]

theorem mapM_ipv4Octet_eq_ok {parts : List JsString} {octets : List UInt8} :
  parts.mapM ipv4Octet = .ok octets ↔ parts = octets.map (fun o => ofNat o.toNat)
  := by
  induction parts generalizing octets with
  | nil => cases octets <;> simp [pure, Except.pure]
  | cons part parts ih =>
      rw [List.mapM_cons]
      constructor
      · intro h
        obtain ⟨o, ho, h⟩ := Except.bind_eq_ok_iff.1 h
        obtain ⟨rest, hrest, h⟩ := Except.bind_eq_ok_iff.1 h
        cases h
        rw [List.map_cons, ipv4Octet_eq_ok.1 ho, ih.1 hrest]
      · intro h
        cases octets with
        | nil => cases h
        | cons o octets =>
            rw [List.map_cons, List.cons.injEq] at h
            rw [ipv4Octet_eq_ok.2 h.1, ih.2 h.2]
            rfl

theorem isDigit_of_mem_ofNat {n : ℕ} {u : UInt16} (h : u ∈ (ofNat n).units) :
  isDigit u = true
  := by
  have hdecimal := isDecimal_ofNat n
  rw [isDecimal] at hdecimal
  cases hunits : (ofNat n).units with
  | nil =>
      rw [hunits] at h
      cases h
  | cons v rest =>
      rw [hunits] at h hdecimal
      simp only [Bool.and_eq_true] at hdecimal
      obtain rfl | h := List.mem_cons.1 h
      · exact hdecimal.1.1
      · exact List.all_eq_true.1 hdecimal.1.2 _ h

theorem dot_notMem_ofNat (n : ℕ) :
  dot ∉ (ofNat n).units
  := by
  intro h
  exact absurd (isDigit_of_mem_ofNat h) (by decide)

/-- What is read as an IPv4 literal is the text of four octets. -/
theorem encodeIPv4_eq_ok {value : JsString} {octets : List UInt8} :
  encodeIPv4 value = .ok octets ↔ octets.length = 4 ∧ value = dottedText octets
  := by
  have hdot : ofString "." = ⟨[dot]⟩ := by decide
  unfold encodeIPv4
  dsimp only
  split
  · rename_i hlength
    constructor
    · rintro ⟨⟩
    · rintro ⟨hoctets, rfl⟩
      apply absurd _ hlength
      rw [dottedText, hdot, split_joinWith, List.length_map, hoctets]
      · intro h
        rw [List.map_eq_nil_iff] at h
        simp [h] at hoctets
      · intro part hpart
        obtain ⟨o, -, rfl⟩ := List.mem_map.1 hpart
        exact dot_notMem_ofNat _
  · rename_i hlength
    rw [mapM_ipv4Octet_eq_ok]
    constructor
    · intro h
      have hdot : (ofString ".").units ≠ [] := by decide
      have hjoin := joinWith_split value hdot
      constructor
      · rw [← List.length_map (fun o : UInt8 => ofNat o.toNat), ← h]
        exact not_not.1 hlength
      · rw [dottedText, ← h, hjoin]
    · rintro ⟨hoctets, rfl⟩
      rw [dottedText, hdot]
      apply split_joinWith
      · intro h
        rw [List.map_eq_nil_iff] at h
        simp [h] at hoctets
      · intro part hpart
        obtain ⟨o, -, rfl⟩ := List.mem_map.1 hpart
        exact dot_notMem_ofNat _

/-! ### Groups -/

/-- The string is one to four hexadecimal digits. -/
def IsGroup (part : JsString) : Prop :=
  part.units.all isHexUnit = true ∧ 1 ≤ part.units.length ∧ part.units.length ≤ 4

/-- A group of a text. -/
inductive Piece where
  | digits (group : {part : JsString // IsGroup part})
  /-- The text `ipv4`. -/
  | ipv4
  /-- The text `tail`. -/
  | tail

/-- The piece is a placeholder. -/
def Piece.IsPlaceholder : Piece → Prop
  | .digits _ => False
  | .ipv4 => True
  | .tail => True

def Piece.text : Piece → JsString
  | .digits group => group.val
  | .ipv4 => ofString "ipv4"
  | .tail => ofString "tail"

/-- The words of a piece, with those of the address at the end. -/
def Piece.words (embedded : List ℕ) : Piece → List ℕ
  | .digits group => [hexValue group.val]
  | .ipv4 => embedded
  | .tail => []

/-- The units of pieces. -/
def isPieceUnit (u : UInt16) : Bool :=
  isHexUnit u || (ofString "ipv4").units.contains u || (ofString "tail").units.contains u

theorem Piece.isPieceUnit_text (piece : Piece) :
  ∀ u ∈ piece.text.units, isPieceUnit u = true
  := by
  cases piece with
  | digits group =>
      intro u hu
      have hhex := List.all_eq_true.1 group.property.1 u hu
      simp [isPieceUnit, hhex]
  | ipv4 | tail => exact List.all_eq_true.1 (by decide)

theorem Piece.text_ne_nil (piece : Piece) :
  piece.text.units ≠ []
  := by
  cases piece with
  | digits group =>
      intro h
      have hlength := group.property.2.1
      simp only [Piece.text] at h
      rw [h] at hlength
      cases hlength
  | ipv4 | tail => decide

theorem Piece.colon_notMem_text (piece : Piece) :
  colon ∉ piece.text.units
  := by
  intro hmem
  exact absurd (piece.isPieceUnit_text colon hmem) (by decide)

theorem IsGroup.ne_ipv4 (h : IsGroup part) :
  part ≠ ofString "ipv4"
  := by
  rintro rfl
  exact absurd h.1 (by decide)

theorem IsGroup.ne_tail (h : IsGroup part) :
  part ≠ ofString "tail"
  := by
  rintro rfl
  exact absurd h.1 (by decide)

/-- Pieces with the same text are the same. -/
theorem Piece.text_injective :
  Function.Injective Piece.text
  := by
  intro p q h
  cases p with
  | digits g =>
      cases q with
      | digits g' => rw [Subtype.ext h]
      | ipv4 => exact absurd h g.property.ne_ipv4
      | tail => exact absurd h g.property.ne_tail
  | ipv4 =>
      cases q with
      | digits g' => exact absurd h.symm g'.property.ne_ipv4
      | ipv4 => rfl
      | tail => exact absurd h (by decide)
  | tail =>
      cases q with
      | digits g' => exact absurd h.symm g'.property.ne_tail
      | ipv4 => exact absurd h (by decide)
      | tail => rfl

variable {embedded words : List ℕ}

/-- The words of groups are those of the pieces that they are. -/
theorem groupWords_eq_ok {parts : List JsString} :
  groupWords embedded parts = .ok words ↔
    ∃ pieces : List Piece, parts = pieces.map Piece.text ∧
      words = pieces.flatMap (Piece.words embedded)
  := by
  induction parts generalizing words with
  | nil =>
      constructor
      · rintro ⟨⟩
        exact ⟨[], rfl, rfl⟩
      · rintro ⟨pieces, hparts, rfl⟩
        rw [List.map_eq_nil_iff.1 hparts.symm]
        rfl
  | cons part parts ih =>
      constructor
      · intro h
        have prepend : ∀ (piece : Piece) (words' : List ℕ), part = piece.text →
            groupWords embedded parts = .ok words' → words = piece.words embedded ++ words' →
            ∃ pieces : List Piece, part :: parts = pieces.map Piece.text ∧
              words = pieces.flatMap (Piece.words embedded) := by
          intro piece words' hpart hwords' hwords
          obtain ⟨pieces, hparts, hpieces⟩ := ih.1 hwords'
          use piece :: pieces
          rw [List.map_cons, List.flatMap_cons, ← hpart, ← hparts, ← hpieces]
          exact ⟨rfl, hwords⟩
        unfold groupWords at h
        split at h
        · rename_i hpart
          obtain ⟨words', hwords', h⟩ := Except.bind_eq_ok_iff.1 h
          cases h
          exact prepend .ipv4 words' hpart hwords' rfl
        · split at h
          · rename_i hpart
            exact prepend .tail words hpart h rfl
          · split at h
            · cases h
            · rename_i hgroup
              obtain ⟨words', hwords', h⟩ := Except.bind_eq_ok_iff.1 h
              cases h
              exact prepend (.digits ⟨part, not_not.1 hgroup⟩) words' rfl hwords' rfl
      · rintro ⟨pieces, hparts, rfl⟩
        cases pieces with
        | nil => cases hparts
        | cons piece pieces =>
            rw [List.map_cons, List.cons.injEq] at hparts
            obtain ⟨rfl, hparts⟩ := hparts
            have hrest := ih.2 ⟨pieces, hparts, rfl⟩
            rw [List.flatMap_cons, groupWords, hrest]
            cases piece with
            | digits group =>
                have hgroup : IsGroup group.val := group.property
                have hform := hgroup
                unfold IsGroup at hform
                rw [Piece.text, if_neg hgroup.ne_ipv4, if_neg hgroup.ne_tail,
                  if_neg (not_not.2 hform)]
                rfl
            | ipv4 | tail => rfl

/-! ### Halves -/

/-- The text of a half. -/
def halfText (pieces : List Piece) : JsString := joinWith (ofString ":") (pieces.map Piece.text)

theorem colonString :
  ofString ":" = ⟨[colon]⟩
  := by decide

variable {pieces : List Piece}

theorem split_halfText (h : pieces ≠ []) :
  (halfText pieces).split (ofString ":") = pieces.map Piece.text
  := by
  rw [halfText, colonString]
  apply split_joinWith
  · rwa [Ne, List.map_eq_nil_iff]
  · intro part hpart
    obtain ⟨piece, -, rfl⟩ := List.mem_map.1 hpart
    exact piece.colon_notMem_text

theorem halfText_cons (piece : Piece) (h : pieces ≠ []) :
  (halfText (piece :: pieces)).units = piece.text.units ++ colon :: (halfText pieces).units
  := by
  rw [halfText, List.map_cons, joinWith_cons _ _ (by rwa [Ne, List.map_eq_nil_iff]), colonString,
    units_append, units_append, List.append_assoc]
  rfl

theorem mem_halfText {u : UInt16} (h : u ∈ (halfText pieces).units) :
  u = colon ∨ ∃ piece ∈ pieces, u ∈ piece.text.units
  := by
  induction pieces with
  | nil => cases h
  | cons piece pieces ih =>
      cases pieces with
      | nil => exact .inr ⟨piece, List.mem_cons_self, h⟩
      | cons next pieces =>
          rw [halfText_cons piece (List.cons_ne_nil next pieces)] at h
          obtain hpiece | h := List.mem_append.1 h
          · exact .inr ⟨piece, List.mem_cons_self, hpiece⟩
          · obtain rfl | h := List.mem_cons.1 h
            · exact .inl rfl
            · obtain h | ⟨p, hp, hu⟩ := ih h
              · exact .inl h
              · exact .inr ⟨p, List.mem_cons_of_mem _ hp, hu⟩

/-- No colon of the units begins or ends them, or stands behind another one. -/
structure Tight (us : List UInt16) : Prop where
  chain : us.IsChain (fun u v => ¬ (u = colon ∧ v = colon))
  first : us.head? ≠ some colon
  last : us.getLast? ≠ some colon

variable {us : List UInt16}

theorem tight_of_notMem (h : colon ∉ us) :
  Tight us
  := by
  constructor
  · apply List.Pairwise.isChain
    apply List.Pairwise.imp_of_mem _ (List.pairwise_of_forall (fun _ _ => trivial))
    intro u v hu _ _ hcolons
    exact h (hcolons.1 ▸ hu)
  · intro hhead
    exact h (List.mem_of_mem_head? hhead)
  · intro hlast
    exact h (List.mem_of_mem_getLast? hlast)

theorem Tight.append {vs : List UInt16} (hus : Tight us) (hvs : Tight vs) (hne : us ≠ [])
    (hne' : vs ≠ []) :
  Tight (us ++ colon :: vs)
  := by
  obtain ⟨u, us, rfl⟩ := List.exists_cons_of_ne_nil hne
  obtain ⟨v, vs, rfl⟩ := List.exists_cons_of_ne_nil hne'
  constructor
  · rw [List.isChain_append]
    refine ⟨hus.chain, ?_, ?_⟩
    · rw [List.isChain_cons_cons]
      refine ⟨?_, hvs.chain⟩
      rintro ⟨-, rfl⟩
      exact hvs.first rfl
    · rintro x hx _ - ⟨rfl, -⟩
      exact hus.last hx
  · exact hus.first
  · rw [List.getLast?_append, List.getLast?_cons_cons]
    intro h
    rw [List.getLast?_eq_some_getLast (List.cons_ne_nil v vs)] at h
    apply hvs.last
    rw [List.getLast?_eq_some_getLast (List.cons_ne_nil v vs)]
    simpa using h

theorem halfText_ne_nil (h : pieces ≠ []) :
  (halfText pieces).units ≠ []
  := by
  obtain ⟨piece, rest, rfl⟩ := List.exists_cons_of_ne_nil h
  cases rest with
  | nil => exact piece.text_ne_nil
  | cons next rest =>
      rw [halfText_cons piece (List.cons_ne_nil next rest)]
      simp

theorem tight_halfText (pieces : List Piece) :
  Tight (halfText pieces).units
  := by
  induction pieces with
  | nil => exact tight_of_notMem List.not_mem_nil
  | cons piece pieces ih =>
      have hpiece := tight_of_notMem piece.colon_notMem_text
      cases pieces with
      | nil => exact hpiece
      | cons next pieces =>
          rw [halfText_cons piece (List.cons_ne_nil next pieces)]
          exact hpiece.append ih piece.text_ne_nil (halfText_ne_nil (List.cons_ne_nil next pieces))

/-- The words of a half are those of the pieces that it consists of. -/
theorem half_eq_ok {valuePart : JsString} :
  half embedded valuePart = .ok words ↔
    ∃ pieces, valuePart = halfText pieces ∧ words = pieces.flatMap (Piece.words embedded)
  := by
  unfold half
  split
  · rename_i hempty
    have hvalue : valuePart = halfText [] := congrArg JsString.mk (List.isEmpty_iff.1 hempty)
    constructor
    · rintro ⟨⟩
      exact ⟨[], hvalue, rfl⟩
    · rintro ⟨pieces, rfl, rfl⟩
      by_cases hpieces : pieces = []
      · rw [hpieces]
        rfl
      · exact absurd (List.isEmpty_iff.1 hempty) (halfText_ne_nil hpieces)
  · rename_i hempty
    rw [groupWords_eq_ok]
    constructor
    · rintro ⟨pieces, hparts, hwords⟩
      refine ⟨pieces, ?_, hwords⟩
      rw [halfText, ← hparts, joinWith_split _ (by decide)]
    · rintro ⟨pieces, rfl, hwords⟩
      have hpieces : pieces ≠ [] := by
        rintro rfl
        exact hempty rfl
      exact ⟨pieces, split_halfText hpieces, hwords⟩

/-! ### Texts with one elision at most -/

/-- The text of halves, of which the second stands behind `::`. -/
def halvesText (left : List Piece) : Option (List Piece) → JsString
  | none => halfText left
  | some right => halfText left ++ ofString "::" ++ halfText right

theorem colonsString :
  (ofString "::").units = [colon, colon]
  := by decide

theorem Tight.free (h : Tight us) :
  ¬ [colon, colon] <:+: us
  := by
  intro hinfix
  have hchain := h.chain.infix hinfix
  rw [List.isChain_cons_cons] at hchain
  exact hchain.1 ⟨rfl, rfl⟩

/-- The parts of a text at `::` are its halves. -/
theorem split_halvesText (left : List Piece) (right : Option (List Piece)) :
  (halvesText left right).split (ofString "::") = halfText left :: right.toList.map halfText
  := by
  have hleft := tight_halfText left
  have halone : ∀ pieces, (halfText pieces).split (ofString "::") = [halfText pieces] := by
    intro pieces
    apply split_free
    rw [colonsString]
    exact (tight_halfText pieces).free
  cases right with
  | none => exact halone left
  | some right =>
      rw [halvesText, split_first (by decide), halone]
      · rfl
      · intro before after heq hafter hbegins
        rw [colonsString] at hbegins
        obtain ⟨u, after, rfl⟩ := List.exists_cons_of_ne_nil hafter
        cases after with
        | nil =>
            obtain ⟨more, hmore⟩ := hbegins
            obtain ⟨rfl, -⟩ := List.cons.inj hmore
            apply hleft.last
            rw [heq]
            simp
        | cons v after =>
            obtain ⟨more, hmore⟩ := hbegins
            obtain ⟨hu, htail⟩ := List.cons.inj hmore
            obtain ⟨hv, -⟩ := List.cons.inj htail
            subst hu hv
            apply hleft.free
            rw [heq]
            exact ⟨before, after, by simp⟩

/-- The words of halves, if there are eight or a run of them was left out. -/
def halvesWords (left : List ℕ) : Option (List ℕ) → Option (List ℕ)
  | none => if left.length = 8 then some left else none
  | some right =>
      if left.length + right.length < 8 then
        some (left ++ List.replicate (8 - (left.length + right.length)) 0 ++ right)
      else none

theorem joinHalves_one (embedded : List ℕ) (first : JsString) :
  joinHalves embedded [first] = .ok words ↔
    ∃ left, half embedded first = .ok left ∧ halvesWords left none = some words
  := by
  have hempty : half embedded .empty = .ok [] := rfl
  cases hleft : half embedded first with
  | error e => simp [joinHalves, hleft, bind, Except.bind]
  | ok left =>
      by_cases hlength : left.length = 8
      · simp [joinHalves, halvesWords, hleft, hempty, hlength, bind, Except.bind]
      · simp [joinHalves, halvesWords, hleft, hempty, hlength, bind, Except.bind]

theorem joinHalves_two (embedded : List ℕ) (first second : JsString) :
  joinHalves embedded [first, second] = .ok words ↔
    ∃ left right, half embedded first = .ok left ∧ half embedded second = .ok right ∧
      halvesWords left (some right) = some words
  := by
  cases hleft : half embedded first with
  | error e => simp [joinHalves, hleft, bind, Except.bind]
  | ok left =>
      cases hright : half embedded second with
      | error e => simp [joinHalves, hleft, hright, bind, Except.bind]
      | ok right =>
          by_cases hlength : 8 ≤ left.length + right.length
          · have hnot : ¬ left.length + right.length < 8 := by omega
            simp [joinHalves, halvesWords, hleft, hright, hlength, hnot, bind, Except.bind]
          · have hlt : left.length + right.length < 8 := by omega
            simp [joinHalves, halvesWords, hleft, hright, hlength, hlt, bind, Except.bind]

/-- What is read from parts at `::` are the words of the halves that the text has. -/
theorem joinHalves_eq_ok {s : JsString} :
  joinHalves embedded (s.split (ofString "::")) = .ok words ↔
    ∃ left right, s = halvesText left right ∧
      halvesWords (left.flatMap (Piece.words embedded))
        (right.map (List.flatMap (Piece.words embedded))) = some words
  := by
  constructor
  · intro h
    have hcolons : (ofString "::").units ≠ [] := by decide
    have hjoin := joinWith_split s hcolons
    cases hhalves : s.split (ofString "::") with
    | nil => exact absurd hhalves (splitUnits_ne_nil _ _ _ _)
    | cons first halves =>
        rw [hhalves] at h hjoin
        cases halves with
        | nil =>
            obtain ⟨words', hleft, hwords⟩ := (joinHalves_one embedded first).1 h
            obtain ⟨left, rfl, rfl⟩ := half_eq_ok.1 hleft
            exact ⟨left, none, hjoin.symm, hwords⟩
        | cons second halves =>
            cases halves with
            | nil =>
                obtain ⟨leftWords, rightWords, hleft, hright, hwords⟩ :=
                  (joinHalves_two embedded first second).1 h
                obtain ⟨left, rfl, rfl⟩ := half_eq_ok.1 hleft
                obtain ⟨right, rfl, rfl⟩ := half_eq_ok.1 hright
                exact ⟨left, some right, hjoin.symm, hwords⟩
            | cons third halves => simp [joinHalves] at h
  · rintro ⟨left, right, rfl, hwords⟩
    rw [split_halvesText]
    cases right with
    | none => exact (joinHalves_one embedded _).2 ⟨_, half_eq_ok.2 ⟨left, rfl, rfl⟩, hwords⟩
    | some right =>
        exact (joinHalves_two embedded _ _).2 ⟨_, _, half_eq_ok.2 ⟨left, rfl, rfl⟩,
          half_eq_ok.2 ⟨right, rfl, rfl⟩, hwords⟩

end Registry.Mdns
