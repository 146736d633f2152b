import GoLike.Registry.Mdns.Ipv6Groups

/-!
# The literals of IPv6 addresses

An address is written as groups, of which a run may be left out at `::` and the last two may be a
dotted IPv4 address. What is read as a literal without brackets is the text of an address, in which
a group may also be one of the placeholders of the parser.
-/

open JsString

namespace Registry.Mdns

/-! ### Addresses -/

/-- An address as it is written: with groups on both sides of `::`, or without it, and with the
octets of a dotted address at the end. -/
structure Address where
  left : List Piece
  right : Option (List Piece)
  dotted : Option {octets : List UInt8 // octets.length = 4}

namespace Address

variable (a : Address)

/-- The text of the last half. -/
def lastText (pieces : List Piece) : JsString :=
  joinWith (ofString ":") (pieces.map Piece.text ++ a.dotted.toList.map (fun o => dottedText o.val))

def text : JsString :=
  match a.right with
  | none => a.lastText a.left
  | some right => halfText a.left ++ ofString "::" ++ a.lastText right

/-- The words of the dotted address. -/
def embedded : List ℕ := a.dotted.elim [] (fun o => wordsOf o.val)

/-- The eight words of the address, if its groups are as many as there have to be. -/
def words : Option (List ℕ) :=
  let groups := List.flatMap (Piece.words a.embedded)
  match a.right with
  | none => halvesWords (groups a.left ++ a.embedded) none
  | some right => halvesWords (groups a.left) (some (groups right ++ a.embedded))

/-- No group is a placeholder. -/
def IsLiteral : Prop := ∀ piece ∈ a.left ++ a.right.getD [], ¬ piece.IsPlaceholder

/-- The placeholders that the parser puts for a dotted address. -/
def placeholders : List Piece := if a.dotted.isSome then [.ipv4, .tail] else []

/-- The halves that the parser reads. -/
def parsedLeft : List Piece := if a.right.isNone then a.left ++ a.placeholders else a.left

def parsedRight : Option (List Piece) := a.right.map (· ++ a.placeholders)

theorem flatMap_placeholders :
  a.placeholders.flatMap (Piece.words a.embedded) = a.embedded
  := by
  obtain ⟨left, right, dotted⟩ := a
  cases dotted with
  | none => rfl
  | some o => exact List.append_nil _

theorem words_eq :
  a.words = halvesWords (a.parsedLeft.flatMap (Piece.words a.embedded))
    (a.parsedRight.map (List.flatMap (Piece.words a.embedded)))
  := by
  unfold words parsedLeft parsedRight
  cases hright : a.right with
  | none =>
      simp only [Option.isNone_none, if_true, Option.map_none, List.flatMap_append,
        flatMap_placeholders]
  | some right =>
      simp only [Option.isNone_some, Bool.false_eq_true, if_false, Option.map_some,
        List.flatMap_append, flatMap_placeholders]

end Address

variable {pieces : List Piece}

theorem halfText_append_placeholders (h : pieces ≠ []) :
  halfText (pieces ++ [.ipv4, .tail]) = halfText pieces ++ ofString ":ipv4:tail"
  := by
  have hsplit : ofString ":" ++ joinWith (ofString ":") [ofString "ipv4", ofString "tail"] =
      ofString ":ipv4:tail" := by decide
  rw [halfText, List.map_append, joinWith_append _ (by rwa [Ne, List.map_eq_nil_iff])
    (by simp), ← hsplit, append_assoc]
  rfl

variable {a : Address}

theorem lastText_dotted (h : pieces ≠ []) {o : {octets : List UInt8 // octets.length = 4}}
    (hdotted : a.dotted = some o) :
  a.lastText pieces = halfText pieces ++ ofString ":" ++ dottedText o.val
  := by
  rw [Address.lastText, hdotted, joinWith_append _ (by rwa [Ne, List.map_eq_nil_iff])
    (by simp)]
  rfl

variable {kept : JsString}

/-- A half that ends in the placeholders of the parser. -/
theorem eq_of_halfText_placeholders (h : halfText pieces = kept ++ ofString ":ipv4:tail") :
  ∃ pieces', pieces' ≠ [] ∧ pieces = pieces' ++ [.ipv4, .tail] ∧ kept = halfText pieces'
  := by
  have hpieces : pieces ≠ [] := by
    rintro rfl
    have hunits := congrArg JsString.units h
    rw [units_append] at hunits
    exact absurd (List.append_eq_nil_iff.1 hunits.symm).2 (by decide)
  have htext : kept ++ ofString ":ipv4:tail" =
      kept ++ ⟨[colon]⟩ ++ ofString "ipv4" ++ ⟨[colon]⟩ ++ ofString "tail" := by
    have hliteral : ofString ":ipv4:tail" =
        ⟨[colon]⟩ ++ (ofString "ipv4" ++ (⟨[colon]⟩ ++ ofString "tail")) := by decide
    rw [append_assoc, append_assoc, append_assoc, ← hliteral]
  have hfree : ∀ s : JsString, colon ∉ s.units → s.split ⟨[colon]⟩ = [s] := by
    rintro s hs
    apply split_free
    rintro ⟨before, after, heq⟩
    apply hs
    rw [← heq]
    simp
  have hsplit := split_halfText hpieces
  rw [h, htext, colonString, split_append, split_append, hfree (ofString "ipv4") (by decide),
    hfree (ofString "tail") (by decide), List.append_assoc] at hsplit
  obtain ⟨pieces', ending, rfl, hbefore, hending⟩ := List.map_eq_append_iff.1 hsplit.symm
  have hplaceholders : ending = [.ipv4, .tail] :=
    List.map_injective_iff.2 Piece.text_injective (hending.trans rfl)
  refine ⟨pieces', ?_, by rw [hplaceholders], ?_⟩
  · rintro rfl
    exact absurd hbefore.symm (splitUnits_ne_nil _ _ _ _)
  · rw [halfText, hbefore, colonString, joinWith_split _ (List.cons_ne_nil colon [])]

/-- The text of an address with a dotted one at its end, and what the parser makes of it. -/
theorem Address.text_dotted {o : {octets : List UInt8 // octets.length = 4}}
    (hdotted : a.dotted = some o) (hne : a.left ≠ [] ∨ a.right.isSome) :
  ∃ kept, a.text = kept ++ ofString ":" ++ dottedText o.val ∧
    halvesText a.parsedLeft a.parsedRight = kept ++ ofString ":ipv4:tail"
  := by
  have hplaceholders : a.placeholders = [.ipv4, .tail] := by
    rw [placeholders, hdotted]
    rfl
  unfold text parsedLeft parsedRight
  rw [hplaceholders]
  cases hright : a.right with
  | none =>
      have hleft : a.left ≠ [] := by
        rw [hright] at hne
        exact hne.resolve_right (by simp)
      use halfText a.left
      constructor
      · exact lastText_dotted hleft hdotted
      · exact halfText_append_placeholders hleft
  | some right =>
      by_cases hpieces : right = []
      · use halfText a.left ++ ofString ":"
        subst hpieces
        constructor
        · have hcolons : ofString "::" = ofString ":" ++ ofString ":" := by decide
          simp only [Address.lastText, hdotted, hcolons, append_assoc]
          rfl
        · have hcolons : ofString "::" ++ halfText [.ipv4, .tail] =
              ofString ":" ++ ofString ":ipv4:tail" := by decide
          simp only [Option.isNone_some, Bool.false_eq_true, if_false, Option.map_some, halvesText,
            List.nil_append, append_assoc, hcolons]
      · use halfText a.left ++ ofString "::" ++ halfText right
        constructor
        · simp only [lastText_dotted hpieces hdotted, append_assoc]
        · simp only [Option.isNone_some, Bool.false_eq_true, if_false, Option.map_some, halvesText,
            halfText_append_placeholders hpieces, append_assoc]

/-- Where `::` stands in a text with a tail that has no empty group. -/
theorem colons_cases {left right kept tail : List UInt16} (htail : Tight tail)
    (h : left ++ colon :: colon :: right = kept ++ colon :: tail) :
  (kept = left ++ [colon] ∧ right = tail) ∨
    ∃ more, kept = left ++ colon :: colon :: more ∧ right = more ++ colon :: tail
  := by
  obtain ⟨more, hkept, hright⟩ | ⟨more, hleft, hmore⟩ := List.append_eq_append_iff.1 h
  · cases more with
    | nil =>
        obtain ⟨-, hhead⟩ := List.cons.inj hright
        exact absurd (by rw [← hhead]; rfl) htail.first
    | cons u more =>
        obtain ⟨hu, hbehind⟩ := List.cons.inj hright
        subst hu
        cases more with
        | nil => exact .inl ⟨hkept, (List.cons.inj hbehind).2⟩
        | cons v more =>
            obtain ⟨hv, hmore⟩ := List.cons.inj hbehind
            subst hv
            exact .inr ⟨more, hkept, hmore⟩
  · cases more with
    | nil =>
        obtain ⟨-, hhead⟩ := List.cons.inj hmore
        exact absurd (by rw [hhead]; rfl) htail.first
    | cons u more =>
        obtain ⟨-, hbehind⟩ := List.cons.inj hmore
        exact absurd ⟨more, right, by simp [hbehind]⟩ htail.free

/-- What the parser makes of a dotted address tells where the address began. -/
theorem exists_address {left : List Piece} {right : Option (List Piece)}
    (h : halvesText left right = kept ++ ofString ":ipv4:tail")
    (o : {octets : List UInt8 // octets.length = 4}) :
  ∃ a : Address, a.dotted = some o ∧ a.parsedLeft = left ∧ a.parsedRight = right ∧
    a.text = kept ++ ofString ":" ++ dottedText o.val
  := by
  cases right with
  | none =>
      obtain ⟨pieces, hne, rfl, rfl⟩ := eq_of_halfText_placeholders h
      use ⟨pieces, none, some o⟩
      exact ⟨rfl, rfl, rfl, lastText_dotted hne rfl⟩
  | some right =>
      have hunits : (halfText left).units ++ colon :: colon :: (halfText right).units =
          kept.units ++ colon :: (ofString "ipv4:tail").units := by
        have hliteral : (ofString ":ipv4:tail").units = colon :: (ofString "ipv4:tail").units := by
          decide
        have heq := congrArg JsString.units h
        simpa [halvesText, units_append, colonsString, hliteral] using heq
      have htail : Tight (ofString "ipv4:tail").units := tight_halfText [.ipv4, .tail]
      obtain ⟨hkept, hright⟩ | ⟨more, hkept, hright⟩ := colons_cases htail hunits
      · have hpieces : right = [.ipv4, .tail] := by
          have htext : halfText right = halfText [.ipv4, .tail] := congrArg JsString.mk hright
          have hne : right ≠ [] := by
            rintro rfl
            exact absurd hright (by decide)
          have hsplit := split_halfText hne
          rw [htext, split_halfText (List.cons_ne_nil _ _)] at hsplit
          exact (List.map_injective_iff.2 Piece.text_injective hsplit).symm
        have hkept' : kept = halfText left ++ ofString ":" := congrArg JsString.mk hkept
        subst hpieces hkept'
        refine ⟨⟨left, some [], some o⟩, rfl, rfl, rfl, ?_⟩
        have hcolons : ofString "::" = ofString ":" ++ ofString ":" := by decide
        simp only [Address.text, Address.lastText, hcolons, append_assoc]
        rfl
      · have hhalf : halfText right = JsString.mk more ++ ofString ":ipv4:tail" :=
          congrArg JsString.mk hright
        obtain ⟨pieces, hne, rfl, hmore⟩ := eq_of_halfText_placeholders hhalf
        have hkept' : kept = halfText left ++ ofString "::" ++ halfText pieces := by
          rw [← hmore]
          refine congrArg JsString.mk (hkept.trans ?_)
          simp [units_append, colonsString]
        subst hkept'
        refine ⟨⟨left, some pieces, some o⟩, rfl, rfl, rfl, ?_⟩
        have hlast : Address.lastText ⟨left, some pieces, some o⟩ pieces =
            halfText pieces ++ ofString ":" ++ dottedText o.val := lastText_dotted hne rfl
        simp only [Address.text, hlast, append_assoc]

/-! ### The parser -/

theorem isPieceUnit_halvesText {left : List Piece} {right : Option (List Piece)} {u : UInt16}
    (h : u ∈ (halvesText left right).units) :
  u = colon ∨ isPieceUnit u = true
  := by
  have hhalf : ∀ pieces, u ∈ (halfText pieces).units → u = colon ∨ isPieceUnit u = true := by
    intro pieces hu
    obtain rfl | ⟨piece, -, hu⟩ := mem_halfText hu
    · exact .inl rfl
    · exact .inr (piece.isPieceUnit_text u hu)
  cases right with
  | none => exact hhalf left h
  | some right =>
      simp only [halvesText, units_append, colonsString, List.mem_append, List.mem_cons,
        List.not_mem_nil, or_false, or_self] at h
      obtain (h | h) | h := h
      · exact hhalf left h
      · exact .inl h
      · exact hhalf right h

theorem dot_notMem_halvesText (left : List Piece) (right : Option (List Piece)) :
  dot ∉ (halvesText left right).units
  := by
  intro h
  obtain h | h := isPieceUnit_halvesText h
  · exact absurd h (by decide)
  · exact absurd h (by decide)

variable {s : JsString}

/-- The units of a string behind its last colon. -/
theorem exists_lastColon (h : colon ∈ s.units) :
  ∃ kept tail : JsString, s = kept ++ ofString ":" ++ tail ∧ colon ∉ tail.units
  := by
  obtain ⟨behind, before, hreverse, hbehind⟩ :=
    List.eq_append_cons_of_mem (List.mem_reverse.2 h)
  refine ⟨⟨before.reverse⟩, ⟨behind.reverse⟩, ?_, by simpa using hbehind⟩
  have hunits : s.units = before.reverse ++ [colon] ++ behind.reverse := by
    rw [← List.reverse_reverse s.units, hreverse]
    simp
  rw [colonString]
  exact congrArg JsString.mk hunits

variable {tail : JsString}

theorem lastIndexOf_append (h : colon ∉ tail.units) :
  lastIndexOf (kept ++ ofString ":" ++ tail) colon = some kept.units.length
  := by
  have hreverse : (kept ++ ofString ":" ++ tail).units.reverse =
      tail.units.reverse ++ colon :: kept.units.reverse := by
    rw [colonString]
    simp [units_append]
  have hmem : colon ∈ (kept ++ ofString ":" ++ tail).units := by
    rw [colonString]
    simp [units_append]
  have hindex : (tail.units.reverse ++ colon :: kept.units.reverse).idxOf colon =
      tail.units.length := by
    rw [List.idxOf_append_of_notMem (by simpa using h), List.idxOf_cons_self, List.length_reverse]
    rfl
  have hlength : (kept ++ ofString ":" ++ tail).units.length =
      kept.units.length + 1 + tail.units.length := by
    rw [colonString]
    simp only [units_append, List.length_append, List.length_singleton]
  rw [lastIndexOf, if_pos hmem, hreverse, hindex, hlength]
  congr 1
  omega

theorem embedIPv4_colon (h : colon ∉ tail.units) :
  embedIPv4 (kept ++ ofString ":" ++ tail) =
    if dot ∈ tail.units then do
      let octets ← encodeIPv4 tail
      .ok (kept ++ ofString ":ipv4:tail", wordsOf octets)
    else .ok (kept ++ ofString ":" ++ tail, [])
  := by
  have hslice : (kept ++ ofString ":" ++ tail).slice (kept.units.length + 1) = tail := by
    rw [slice, colonString]
    simp [units_append]
  have htake : JsString.mk ((kept ++ ofString ":" ++ tail).units.take kept.units.length) = kept := by
    rw [colonString]
    simp [units_append]
  unfold embedIPv4
  simp only [lastIndexOf_append h, Option.elim_some, Option.getD_some, hslice, htake]

theorem embedIPv4_none (h : colon ∉ s.units) :
  embedIPv4 s =
    if dot ∈ s.units then do
      let octets ← encodeIPv4 s
      .ok (⟨s.units.dropLast⟩ ++ ofString ":ipv4:tail", wordsOf octets)
    else .ok (s, [])
  := by
  have hindex : lastIndexOf s colon = none := by rw [lastIndexOf, if_neg h]
  have hslice : s.slice 0 = s := rfl
  unfold embedIPv4
  simp only [hindex, Option.elim_none, Option.getD_none, hslice, List.dropLast_eq_take]

/-- A string without dots is read as it is. -/
theorem embedIPv4_plain (h : dot ∉ s.units) :
  embedIPv4 s = .ok (s, [])
  := by
  by_cases hcolon : colon ∈ s.units
  · obtain ⟨kept, tail, rfl, htail⟩ := exists_lastColon hcolon
    have hdot : dot ∉ tail.units := by
      intro hmem
      apply h
      rw [units_append]
      exact List.mem_append_right _ hmem
    rw [embedIPv4_colon htail, if_neg hdot]
  · rw [embedIPv4_none hcolon, if_neg h]

variable {octets : List UInt8}

theorem mem_dottedText {u : UInt16} (h : u ∈ (dottedText octets).units) :
  u = dot ∨ ∃ o ∈ octets, u ∈ (ofNat o.toNat).units
  := by
  have hdot : ofString "." = ⟨[dot]⟩ := by decide
  rw [dottedText, hdot] at h
  induction octets with
  | nil => cases h
  | cons o octets ih =>
      cases octets with
      | nil => exact .inr ⟨o, List.mem_cons_self, h⟩
      | cons next octets =>
          rw [List.map_cons, joinWith_cons _ _ (by simp), units_append, units_append] at h
          obtain h | h := List.mem_append.1 h
          · obtain h | h := List.mem_append.1 h
            · exact .inr ⟨o, List.mem_cons_self, h⟩
            · exact .inl (List.mem_singleton.1 h)
          · obtain h | ⟨o', ho', hu⟩ := ih h
            · exact .inl h
            · exact .inr ⟨o', List.mem_cons_of_mem _ ho', hu⟩

theorem colon_notMem_dottedText (octets : List UInt8) :
  colon ∉ (dottedText octets).units
  := by
  intro h
  obtain h | ⟨o, -, h⟩ := mem_dottedText h
  · exact absurd h (by decide)
  · exact absurd (isDigit_of_mem_ofNat h) (by decide)

/-- A dot of a dotted address is not its last unit. -/
theorem dot_mem_dropLast_dottedText (h : octets.length = 4) :
  dot ∈ (dottedText octets).units.dropLast
  := by
  match octets, h with
  | [o₁, o₂, o₃, o₄], _ =>
      have hne : (ofNat o₄.toNat).units ≠ [] := by
        have hempty := isEmpty_ofNat o₄.toNat
        rintro h
        simp [JsString.isEmpty, h] at hempty
      have hunits : (dottedText [o₁, o₂, o₃, o₄]).units =
          ((ofNat o₁.toNat).units ++ dot :: (ofNat o₂.toNat).units ++ dot ::
            (ofNat o₃.toNat).units ++ [dot]) ++ (ofNat o₄.toNat).units := by
        have hdot : ofString "." = ⟨[dot]⟩ := by decide
        simp [dottedText, joinWith, hdot, units_append]
      rw [hunits, List.dropLast_append_of_ne_nil hne]
      simp

theorem dot_mem_dottedText (h : octets.length = 4) :
  dot ∈ (dottedText octets).units
  := List.mem_of_mem_dropLast (dot_mem_dropLast_dottedText h)

/-- Read the words of a literal without brackets. -/
def parseLiteral (s : JsString) : Except RegistryError (List ℕ) := do
  let embedded ← embedIPv4 s
  joinHalves embedded.2 (embedded.1.split (ofString "::"))

variable {words : List ℕ}

/-- A text with a dotted address at its end is read with placeholders for it. -/
theorem parseLiteral_dotted (htail : colon ∉ tail.units) (hdot : dot ∈ tail.units) :
  parseLiteral (kept ++ ofString ":" ++ tail) = .ok words ↔
    ∃ o : {octets : List UInt8 // octets.length = 4}, tail = dottedText o.val ∧
      joinHalves (wordsOf o.val) ((kept ++ ofString ":ipv4:tail").split (ofString "::")) = .ok words
  := by
  unfold parseLiteral
  rw [embedIPv4_colon htail, if_pos hdot]
  constructor
  · intro h
    obtain ⟨embedded, hembedded, hwords⟩ := Except.bind_eq_ok_iff.1 h
    obtain ⟨octets, hoctets, hpair⟩ := Except.bind_eq_ok_iff.1 hembedded
    cases hpair
    obtain ⟨hlength, rfl⟩ := encodeIPv4_eq_ok.1 hoctets
    exact ⟨⟨octets, hlength⟩, rfl, hwords⟩
  · rintro ⟨o, rfl, hwords⟩
    rw [encodeIPv4_eq_ok.2 ⟨o.property, rfl⟩]
    exact hwords

/-- A text without a colon is no literal. -/
theorem parseLiteral_none (hcolon : colon ∉ s.units) (hdot : dot ∈ s.units) (words : List ℕ) :
  parseLiteral s ≠ .ok words
  := by
  intro h
  unfold parseLiteral at h
  rw [embedIPv4_none hcolon, if_pos hdot] at h
  obtain ⟨embedded, hembedded, hwords⟩ := Except.bind_eq_ok_iff.1 h
  obtain ⟨octets, hoctets, hpair⟩ := Except.bind_eq_ok_iff.1 hembedded
  cases hpair
  obtain ⟨hlength, rfl⟩ := encodeIPv4_eq_ok.1 hoctets
  obtain ⟨left, right, hhalves, -⟩ := joinHalves_eq_ok.1 hwords
  -- the dots but for the last unit are kept
  apply dot_notMem_halvesText left right
  rw [← hhalves, units_append]
  exact List.mem_append_left _ (dot_mem_dropLast_dottedText hlength)

theorem Address.text_plain (h : a.dotted = none) :
  a.text = halvesText a.left a.right
  := by
  obtain ⟨left, right, dotted⟩ := a
  subst h
  cases right with
  | none | some => simp [text, lastText, halvesText, halfText]

theorem Address.words_plain (h : a.dotted = none) :
  a.words = halvesWords (a.left.flatMap (Piece.words []))
    (a.right.map (List.flatMap (Piece.words [])))
  := by
  obtain ⟨left, right, dotted⟩ := a
  subst h
  cases right with
  | none | some => simp [words, embedded]

theorem parseLiteral_plain (hdot : dot ∉ s.units) :
  parseLiteral s = .ok words ↔
    ∃ a : Address, a.dotted = none ∧ s = a.text ∧ a.words = some words
  := by
  unfold parseLiteral
  rw [embedIPv4_plain hdot]
  constructor
  · intro h
    obtain ⟨left, right, rfl, hwords⟩ := joinHalves_eq_ok.1 h
    have ha : (Address.mk left right none).dotted = none := rfl
    exact ⟨_, ha, (Address.text_plain ha).symm, (Address.words_plain ha).trans hwords⟩
  · rintro ⟨a, ha, rfl, hwords⟩
    rw [Address.words_plain ha] at hwords
    exact joinHalves_eq_ok.2 ⟨a.left, a.right, Address.text_plain ha, hwords⟩

/-- What is read as a literal is the text of an address. -/
theorem parseLiteral_eq_ok :
  parseLiteral s = .ok words ↔ ∃ a : Address, s = a.text ∧ a.words = some words
  := by
  constructor
  · intro h
    by_cases hdot : dot ∈ s.units
    · by_cases hcolon : colon ∈ s.units
      · obtain ⟨kept, tail, rfl, htail⟩ := exists_lastColon hcolon
        by_cases hdot' : dot ∈ tail.units
        · obtain ⟨o, rfl, hjoin⟩ := (parseLiteral_dotted htail hdot').1 h
          obtain ⟨left, right, hhalves, hwords⟩ := joinHalves_eq_ok.1 hjoin
          obtain ⟨a, ho, rfl, rfl, htext⟩ := exists_address hhalves.symm o
          refine ⟨a, htext.symm, ?_⟩
          rw [a.words_eq, Address.embedded, ho]
          exact hwords
        · unfold parseLiteral at h
          rw [embedIPv4_colon htail, if_neg hdot'] at h
          obtain ⟨left, right, hhalves, -⟩ := joinHalves_eq_ok.1 h
          dsimp only at hhalves
          rw [hhalves] at hdot
          exact absurd hdot (dot_notMem_halvesText left right)
      · exact absurd h (parseLiteral_none hcolon hdot words)
    · obtain ⟨a, -, htext, hwords⟩ := (parseLiteral_plain hdot).1 h
      exact ⟨a, htext, hwords⟩
  · rintro ⟨a, rfl, hwords⟩
    cases hdotted : a.dotted with
    | none =>
        apply (parseLiteral_plain _).2 ⟨a, hdotted, rfl, hwords⟩
        rw [Address.text_plain hdotted]
        exact dot_notMem_halvesText a.left a.right
    | some o =>
        have hne : a.left ≠ [] ∨ a.right.isSome := by
          by_contra hnone
          obtain ⟨hleft, hright⟩ := not_or.1 hnone
          rw [Option.not_isSome_iff_eq_none] at hright
          obtain ⟨octets, hoctets⟩ := o
          match octets, hoctets with
          | [o₁, o₂, o₃, o₄], _ =>
              simp [Address.words, Address.embedded, hright, hdotted, not_not.1 hleft, wordsOf,
                halvesWords] at hwords
        obtain ⟨kept, htext, hhalves⟩ := Address.text_dotted hdotted hne
        rw [htext, parseLiteral_dotted (colon_notMem_dottedText _) (dot_mem_dottedText o.property)]
        refine ⟨o, rfl, joinHalves_eq_ok.2 ⟨a.parsedLeft, a.parsedRight, hhalves.symm, ?_⟩⟩
        rw [← hwords, a.words_eq, Address.embedded, hdotted]
        rfl

end Registry.Mdns
