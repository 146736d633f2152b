import GoLike.Registry.Kubernetes.Codec
import GoLike.Registry.Mdns.Base32
import GoLike.Registry.Mdns.Ipv6Exact
import Mathlib.Data.Bool.AllAny

/-!
# Slices that validation admits

Validation admits a slice with one address of its family and with a port. The projection tests
the texts of addresses; an address that passes these tests is none of those that validation
forbids, and what fails them is replaced by a DNS name.
-/

open Store JsString

namespace Registry.Kubernetes.Codec

open Registry.Mdns (base32Symbol base32Groups base32Alphabet colon dottedText wordsOf toHex
  hexUnitOf decodeIPv6 longestRun textParts)

variable {urls : UrlParser}

/-! ### What validation admits -/

/-- The octets of unspecified, loopback, link-local, multicast and broadcast addresses. -/
def ForbiddenOctets (a b c d : UInt8) : Prop :=
  a = 0 ∨ a = 127 ∨ (a = 169 ∧ b = 254) ∨ (224 ≤ a ∧ a ≤ 239) ∨ [a, b, c, d] = [255, 255, 255, 255]

/-- The words of unspecified, loopback, link-local and multicast addresses. -/
def ForbiddenWords (words : List ℕ) : Prop :=
  words = [0, 0, 0, 0, 0, 0, 0, 0] ∨ words = [0, 0, 0, 0, 0, 0, 0, 1] ∨
    ∃ first rest, words = first :: rest ∧ (first / 64 = 1018 ∨ 65280 ≤ first)

/-- The text of an IPv4 address that is not forbidden. -/
def IsIPv4 (text : JsString) : Prop :=
  ∃ a b c d : UInt8, text = dottedText [a, b, c, d] ∧ ¬ ForbiddenOctets a b c d

/-- The text of an IPv6 address that is not forbidden. -/
def IsIPv6 (text : JsString) : Prop :=
  ∃ bytes, bytes.length = 16 ∧ decodeIPv6 bytes = .ok text ∧ ¬ ForbiddenWords (wordsOf bytes)

/-- A label of a DNS name. -/
def IsDnsLabel (label : JsString) : Prop := label.units.length ≤ 63 ∧ isLabel label = true

/-- A DNS name: labels between dots. -/
def IsDnsName (text : JsString) : Prop :=
  text.units.length ≤ 253 ∧ ∃ labels, labels ≠ [] ∧ (∀ label ∈ labels, IsDnsLabel label) ∧
    text = joinWith (ofString ".") labels

/-- The text is an address of a family. -/
def IsAddress : AddressType → JsString → Prop
  | .ipv4 => IsIPv4
  | .ipv6 => IsIPv6
  | .fqdn => IsDnsName

/-- Validation admits the fields of a slice. -/
def Admitted (fields : Projection) : Prop :=
  (∃ text, fields.addresses = [text] ∧ IsAddress fields.addressType text) ∧
    1 ≤ fields.port ∧ fields.port ≤ 65535

/-! ### IPv4 -/

/-- What passes the test is the text of four octets. -/
theorem exists_octets {host : JsString} (h : ipv4 host = true) :
  ∃ a b c d : UInt8, host = dottedText [a, b, c, d]
  := by
  simp only [ipv4, Bool.and_eq_true, beq_iff_eq, List.all_eq_true, decide_eq_true_eq] at h
  obtain ⟨hlength, hparts⟩ := h
  have hoctets : ∃ octets : List UInt8, host.split (ofString ".") =
      octets.map (fun o => ofNat o.toNat) := by
    generalize host.split (ofString ".") = parts at hparts
    clear hlength
    induction parts with
    | nil => exact ⟨[], rfl⟩
    | cons part parts ih =>
        obtain ⟨octets, hrest⟩ := ih (fun p hp => hparts p (List.mem_cons_of_mem _ hp))
        obtain ⟨⟨hdecimal, -⟩, hvalue⟩ := hparts part List.mem_cons_self
        use UInt8.ofNat part.decimalValue :: octets
        have hsmall : (UInt8.ofNat part.decimalValue).toNat = part.decimalValue := by
          rw [UInt8.toNat_ofNat']
          omega
        rw [List.map_cons, ← hrest, hsmall, ofNat_decimalValue hdecimal]
  obtain ⟨octets, hsplit⟩ := hoctets
  rw [hsplit, List.length_map] at hlength
  have hdot : (ofString ".").units ≠ [] := by decide
  have hjoin := joinWith_split host hdot
  rw [hsplit] at hjoin
  match octets, hlength with
  | [a, b, c, d], _ => exact ⟨a, b, c, d, hjoin.symm⟩

theorem split_dottedText (a b c d : UInt8) :
  (dottedText [a, b, c, d]).split (ofString ".") =
    [ofNat a.toNat, ofNat b.toNat, ofNat c.toNat, ofNat d.toNat]
  := by
  have hdot : ofString "." = ⟨[Mdns.dot]⟩ := by decide
  rw [dottedText, hdot]
  apply split_joinWith
  · exact List.cons_ne_nil _ _
  · intro part hpart
    obtain ⟨o, -, rfl⟩ := List.mem_map.1 hpart
    exact Mdns.dot_notMem_ofNat _

/-- The test of the text finds what is forbidden. -/
theorem forbiddenIPv4_of_forbiddenOctets {a b c d : UInt8} (h : ForbiddenOctets a b c d) :
  forbiddenIPv4 (dottedText [a, b, c, d]) = true
  := by
  simp only [forbiddenIPv4, split_dottedText, List.map_cons, decimalValue_ofNat, List.map_nil,
    List.getElem?_cons_zero, List.getElem?_cons_succ, Bool.or_eq_true, Bool.and_eq_true, beq_iff_eq,
    Option.some.injEq, Option.any_some, decide_eq_true_eq]
  obtain rfl | rfl | ⟨rfl, rfl⟩ | ⟨hlow, hhigh⟩ | hbroadcast := h
  · simp
  · simp
  · simp
  · left
    right
    exact ⟨UInt8.le_iff_toNat_le.1 hlow, UInt8.le_iff_toNat_le.1 hhigh⟩
  · right
    rw [hbroadcast]
    decide

/-! ### IPv6 -/

/-- A word of four hexadecimal digits. -/
theorem toHex_large {word : ℕ} (hlow : 4096 ≤ word) (hhigh : word < 65536) :
  toHex word = ⟨[hexUnitOf (word / 4096), hexUnitOf (word / 256 % 16), hexUnitOf (word / 16 % 16),
    hexUnitOf (word % 16)]⟩
  := by
  have hdigits : Nat.digits 16 word =
      [word % 16, word / 16 % 16, word / 16 / 16 % 16, word / 16 / 16 / 16] := by
    rw [Nat.digits_def' (by decide) (by omega), Nat.digits_def' (by decide) (by omega),
      Nat.digits_def' (by decide) (by omega), Nat.digits_of_lt 16 _ (by omega) (by omega)]
  have h256 : word / 16 / 16 = word / 256 := by omega
  have h4096 : word / 256 / 16 = word / 4096 := by omega
  rw [toHex, if_neg (by omega), hdigits, h256, h4096]
  rfl

/-- The text of an address whose first word is not zero begins with the word. -/
theorem text_first {bytes : List UInt8} {text : JsString} {first : ℕ} {rest : List ℕ}
    (hlength : bytes.length = 16) (htext : decodeIPv6 bytes = .ok text)
    (hwords : wordsOf bytes = first :: rest) (hfirst : first ≠ 0) :
  ∃ more, text = toHex first ++ more
  := by
  have hbound := (Mdns.wordsOf_facts (n := 8) hlength).2.1
  rw [hwords] at hbound
  have hrun := @Mdns.isRun_longestRun (first :: rest) 0 0 0 (.inl rfl) (Nat.zero_le _)
  rw [decodeIPv6, if_neg (not_not_intro hlength), hwords] at htext
  dsimp only at htext
  generalize longestRun (first :: rest) 0 0 0 = best at htext hrun
  -- a run of zeros does not begin at the first word
  have hparts : textParts (first :: rest) best.1 best.2 0 =
      toHex first :: textParts (first :: rest) best.1 best.2 1 := by
    have hpos : 0 < (first :: rest).length := Nat.zero_lt_succ rest.length
    rw [textParts, if_pos hpos, if_neg]
    · rfl
    · rintro ⟨hstart, hpos⟩
      obtain hzero | hrun := hrun
      · omega
      · have hhead := hrun.2 0 (by omega) (by omega)
        rw [List.getElem?_cons_zero, Option.some.injEq] at hhead
        exact hfirst hhead
  obtain ⟨more, hjoined⟩ : ∃ more, joinWith (ofString ":")
      (textParts (first :: rest) best.1 best.2 0) = toHex first ++ more := by
    rw [hparts]
    by_cases hnil : textParts (first :: rest) best.1 best.2 1 = []
    · rw [hnil]
      exact ⟨.empty, (congrArg JsString.mk (List.append_nil _)).symm⟩
    · exact ⟨_, (joinWith_cons _ _ hnil).trans (append_assoc _ _ _)⟩
  obtain ⟨⟨hhex, hne, -⟩, -⟩ := Mdns.isGroup_toHex (hbound first List.mem_cons_self)
  have hcolon : ¬ (toHex first ++ more).startsWith (ofString ":") = true := by
    rw [Mdns.startsWith_colon, units_append]
    intro hhead
    cases hunits : (toHex first).units with
    | nil =>
        rw [hunits] at hne
        exact absurd hne (by decide)
    | cons u us =>
        rw [hunits] at hhead hhex
        simp only [List.cons_append, List.head?_cons, Option.some.injEq] at hhead
        have hu := List.all_eq_true.1 hhex u List.mem_cons_self
        rw [hhead] at hu
        exact absurd hu (by decide)
  rw [hjoined, if_neg hcolon, Except.ok.injEq] at htext
  exact ⟨more, htext.symm⟩

/-- The mapping to lower case leaves the text of an address as it is. -/
theorem toLowerCase_text (lower : LowerCase) {bytes : List UInt8} {text : JsString}
    (hlength : bytes.length = 16) (htext : decodeIPv6 bytes = .ok text) :
  lower.toLowerCase text = text
  := by
  obtain ⟨a, ha, -, -⟩ := Mdns.decodeIPv6_eq hlength
  rw [ha, Except.ok.injEq] at htext
  subst htext
  have hunits : a.text.units.map lowerUnit = a.text.units.map id :=
    List.map_congr_left
      (fun u hu => Mdns.lowerUnit_of_isLiteralUnit (a.isLiteralUnit_text u hu))
  rw [lower.ascii _ (fun u hu => Mdns.lt_of_isLiteralUnit (a.isLiteralUnit_text u hu))]
  exact congrArg JsString.mk (hunits.trans (List.map_id _))

/-- The texts of the words of link-local and multicast addresses. -/
theorem startsWith_toHex {word : ℕ} (h : word / 64 = 1018 ∨ 65280 ≤ word) (hhigh : word < 65536)
    (more : JsString) :
  ((["fe8", "fe9", "fea", "feb"].any
      (fun start => (toHex word ++ more).startsWith (ofString start)) ||
    (toHex word ++ more).startsWith (ofString "ff")) = true)
  := by
  rw [toHex_large (by omega) hhigh]
  generalize hexUnitOf (word % 16) = last
  obtain hlocal | hmulticast := h
  · have hfirst : word / 4096 = 15 := by omega
    have hsecond : word / 256 % 16 = 14 := by omega
    have hthird : word / 16 % 16 = 8 ∨ word / 16 % 16 = 9 ∨ word / 16 % 16 = 10 ∨
        word / 16 % 16 = 11 := by omega
    rw [hfirst, hsecond]
    obtain hthird | hthird | hthird | hthird := hthird
    · rw [hthird]
      rfl
    · rw [hthird]
      rfl
    · rw [hthird]
      rfl
    · rw [hthird]
      rfl
  · have hfirst : word / 4096 = 15 := by omega
    have hsecond : word / 256 % 16 = 15 := by omega
    rw [hfirst, hsecond, Bool.or_eq_true]
    right
    rfl

/-- The test of the text finds what is forbidden. -/
theorem forbiddenIPv6_of_forbiddenWords (lower : LowerCase) {bytes : List UInt8} {text : JsString}
    (hlength : bytes.length = 16) (htext : decodeIPv6 bytes = .ok text)
    (h : ForbiddenWords (wordsOf bytes)) :
  forbiddenIPv6 lower text = true
  := by
  have hbound := (Mdns.wordsOf_facts (n := 8) hlength).2.1
  rw [forbiddenIPv6, toLowerCase_text lower hlength htext]
  obtain hwords | hwords | ⟨first, rest, hwords, hfirst⟩ := h
  · have hunspecified : text = ofString "::" := by
      rw [decodeIPv6, if_neg (not_not_intro hlength), hwords] at htext
      simp [longestRun, Mdns.zeroEnd, textParts] at htext
      rw [← htext]
      decide
    rw [hunspecified]
    rfl
  · have hloopback : text = ofString "::1" := by
      rw [decodeIPv6, if_neg (not_not_intro hlength), hwords] at htext
      simp [longestRun, Mdns.zeroEnd, textParts] at htext
      rw [← htext]
      decide
    rw [hloopback]
    rfl
  · rw [hwords] at hbound
    obtain ⟨more, rfl⟩ := text_first hlength htext hwords (by omega)
    have hstart := startsWith_toHex hfirst (hbound first List.mem_cons_self) more
    rw [Bool.or_eq_true] at hstart
    simp only [Bool.or_eq_true]
    obtain hlocal | hmulticast := hstart
    · exact .inl (.inr hlocal)
    · exact .inr hmulticast

/-! ### DNS names -/

/-- What passes the test is a DNS name. -/
theorem isDnsName_of_hostname {host : JsString} (h : hostname host = true) :
  IsDnsName host
  := by
  simp only [hostname, Bool.and_eq_true, decide_eq_true_eq, List.all_eq_true] at h
  obtain ⟨⟨-, hlength⟩, hlabels⟩ := h
  refine ⟨hlength, host.split (ofString "."), splitUnits_ne_nil _ _ _ _, ?_, ?_⟩
  · intro label hlabel
    exact ⟨(hlabels label hlabel).1.2, (hlabels label hlabel).2⟩
  · exact (joinWith_split host (by decide)).symm

theorem base32Symbol_mem (bits : ℕ) :
  base32Symbol bits ∈ base32Alphabet
  := by
  have hall : ∀ i < 32, base32Alphabet.getD i 97 ∈ base32Alphabet := by decide
  rw [Mdns.base32Symbol_eq]
  exact hall _ (Nat.mod_lt _ (by decide))

/-- The symbols of a group of bits, and the number of bits they take. -/
theorem base32Groups_facts (buffer bits : ℕ) :
  (∀ u ∈ (base32Groups buffer bits).1, u ∈ base32Alphabet) ∧
    (base32Groups buffer bits).2 < 5 ∧
    5 * (base32Groups buffer bits).1.length + (base32Groups buffer bits).2 = bits
  := by
  induction bits using Nat.strong_induction_on with
  | h bits ih =>
      rw [base32Groups]
      split
      · rename_i hfive
        obtain ⟨hmem, hleft, hcount⟩ := ih (bits - 5) (by omega)
        dsimp only
        refine ⟨?_, hleft, ?_⟩
        · intro u hu
          obtain rfl | hu := List.mem_cons.1 hu
          · exact base32Symbol_mem _
          · exact hmem u hu
        · rw [List.length_cons]
          omega
      · rename_i hfew
        refine ⟨?_, by omega, by simp⟩
        intro u hu
        cases hu

/-- The units of an encoding are in the alphabet, and there are enough of them for all bits. -/
theorem base32Units_facts (bytes : List UInt8) (buffer bits : ℕ) (hbits : bits < 5) :
  (∀ u ∈ base32Units buffer bits bytes, u ∈ base32Alphabet) ∧
    bits + 8 * bytes.length ≤ 5 * (base32Units buffer bits bytes).length
  := by
  induction bytes generalizing buffer bits with
  | nil =>
      rw [base32Units]
      split
      · rename_i hpos
        constructor
        · intro u hu
          rw [List.mem_singleton.1 hu]
          apply base32Symbol_mem
        · simp only [List.length_nil, List.length_singleton]
          omega
      · rename_i hzero
        constructor
        · intro u hu
          cases hu
        · simp only [List.length_nil]
          omega
  | cons byte bytes ih =>
      obtain ⟨hmem, hleft, hcount⟩ :=
        base32Groups_facts ((buffer <<< 8 ||| byte.toNat) % 2 ^ 32) (bits + 8)
      obtain ⟨hrest, hlength⟩ := ih ((buffer <<< 8 ||| byte.toNat) % 2 ^ 32)
        (base32Groups ((buffer <<< 8 ||| byte.toNat) % 2 ^ 32) (bits + 8)).2 hleft
      rw [base32Units]
      constructor
      · intro u hu
        obtain hu | hu := List.mem_append.1 hu
        · exact hmem u hu
        · exact hrest u hu
      · rw [List.length_append, List.length_cons]
        omega

/-- What takes the place of an address is a DNS name. -/
theorem isDnsName_fallbackHost (host : SliceHost) (marker : JsString) (value : List UInt16) :
  IsDnsName (fallbackHost (ofString "ki-" ++ hash host marker value))
  := by
  have hdrop : (ofString "ki-" ++ hash host marker value).units.drop 3 =
      (hash host marker value).units := by
    have hletters : (ofString "ki-").units = [107, 105, 45] := by decide
    rw [units_append, hletters]
    rfl
  rw [fallbackHost, hdrop]
  have hdigest := host.length_digest (encodeUtf8 ⟨brackets [quote marker, value]⟩)
  have hfacts := base32Units_facts (host.digest (encodeUtf8 ⟨brackets [quote marker, value]⟩)) 0 0
    (by decide)
  rw [hdigest] at hfacts
  obtain ⟨hmem, hmany⟩ := hfacts
  have hunits : (hash host marker value).units =
      base32Units 0 0 (host.digest (encodeUtf8 ⟨brackets [quote marker, value]⟩)) := rfl
  rw [← hunits] at hmem hmany
  generalize (hash host marker value).units = units at hmem hmany
  have hlength : (units.take 20).length = 20 := by
    rw [List.length_take]
    omega
  have hsymbol : ∀ u ∈ base32Alphabet, isAlphanumeric u = true :=
    List.all_iff_forall_prop.mp (by decide)
  have halphanumeric : ∀ u ∈ units.take 20, isAlphanumeric u = true :=
    fun u hu => hsymbol u (hmem u (List.mem_of_mem_take hu))
  have hlabel : IsDnsLabel ⟨units.take 20⟩ := by
    constructor
    · rw [hlength]
      decide
    · rw [isLabel, Bool.and_eq_true, Bool.and_eq_true, List.all_eq_true]
      have hne : units.take 20 ≠ [] := by
        intro hnil
        rw [hnil] at hlength
        cases hlength
      refine ⟨⟨?_, ?_⟩, ?_⟩
      · rw [List.head?_eq_some_head hne]
        exact halphanumeric _ (List.head_mem hne)
      · rw [List.getLast?_eq_some_getLast hne]
        exact halphanumeric _ (List.getLast_mem hne)
      · intro u hu
        rw [halphanumeric u hu, Bool.true_or]
  refine ⟨?_, [⟨units.take 20⟩, ofString "registry", ofString "go-like", ofString "invalid"],
    List.cons_ne_nil _ _, ?_, ?_⟩
  · have hsuffix : (ofString ".registry.go-like.invalid").units.length = 25 := by decide
    rw [units_append, List.length_append, hlength, hsuffix]
    decide
  · simp only [List.mem_cons, List.not_mem_nil, or_false, forall_eq_or_imp, forall_eq]
    refine ⟨hlabel, ?_, ?_, ?_⟩
    · constructor
      · decide
      · decide
    · constructor
      · decide
      · decide
    · constructor
      · decide
      · decide
  · have hsuffix : ofString ".registry.go-like.invalid" = ofString "." ++ ofString "registry" ++
        ofString "." ++ ofString "go-like" ++ ofString "." ++ ofString "invalid" := by decide
    rw [hsuffix]
    simp only [joinWith, append_assoc]

/-! ### The projection -/

/-- The host of a literal is the text of its address. -/
theorem hostOf_literal {host : SliceHost} {parsed : Url} (h : colon ∈ (hostOf host parsed).units) :
  ∃ bytes, bytes.length = 16 ∧ decodeIPv6 bytes = .ok (hostOf host parsed)
  := by
  have hcolon : colon ∈ (host.urls.hostname parsed).units := by
    rw [hostOf, Mdns.unbracket] at h
    split at h
    · exact List.mem_of_mem_tail (List.mem_of_mem_dropLast h)
    · exact h
  obtain ⟨bytes, text, hlength, htext, hname⟩ := host.urls.hostname_printed parsed hcolon
  refine ⟨bytes, hlength, ?_⟩
  have hopen : (ofString "[").units = [91] := by decide
  have hclose : (ofString "]").units = [93] := by decide
  have hhost : hostOf host parsed = text := by
    have hunits : (ofString "[" ++ text ++ ofString "]").units = 91 :: (text.units ++ [93]) := by
      rw [units_append, units_append, hopen, hclose]
      rfl
    have hlast : (91 :: (text.units ++ [93])).getLast? = some 93 :=
      List.getLast?_concat (l := 91 :: text.units)
    rw [hostOf, Mdns.unbracket, hname, hunits, if_pos ⟨rfl, hlast⟩, List.tail_cons,
      List.dropLast_concat]
  rw [hhost, htext]

/-- What is projected from a host is an address of the family. -/
theorem isAddress_address (host : SliceHost) (parsed : Url) (marker : JsString)
    (value : List UInt16) :
  IsAddress (address host (hostOf host parsed) (ofString "ki-" ++ hash host marker value)).1
    (address host (hostOf host parsed) (ofString "ki-" ++ hash host marker value)).2
  := by
  rw [address]
  split
  · rename_i h
    obtain ⟨a, b, c, d, htext⟩ := exists_octets h.1
    refine ⟨a, b, c, d, htext, ?_⟩
    intro hforbidden
    rw [htext, forbiddenIPv4_of_forbiddenOctets hforbidden] at h
    cases h.2
  · split
    · rename_i h
      obtain ⟨bytes, hlength, htext⟩ := hostOf_literal h.1
      refine ⟨bytes, hlength, htext, ?_⟩
      intro hforbidden
      rw [forbiddenIPv6_of_forbiddenWords host.lower hlength htext hforbidden] at h
      cases h.2.2
    · split
      · rename_i h
        exact isDnsName_of_hostname h.2.2
      · apply isDnsName_fallbackHost

/-- The first endpoint of the instance is a URL with the port zero. -/
def HasPortZero (host : SliceHost) (x : ServiceInstance urls) : Prop :=
  ∃ endpoint parsed, x.endpoints.head? = some endpoint ∧
    urls.parse endpoint.val.val = some parsed ∧ host.urls.port parsed = ofNat 0

/-- The port is that of the URL. -/
theorem portOf_bounds (host : SliceHost) (parsed : Url) :
  portOf host parsed ≤ 65535 ∧ (1 ≤ portOf host parsed ↔ host.urls.port parsed ≠ ofNat 0)
  := by
  have hzero : JsString.empty ≠ ofNat 0 := by decide
  rw [portOf]
  obtain hport | ⟨n, hn, hport⟩ := host.urls.port_printed parsed
  · have hempty : ¬ ¬ JsString.empty.isEmpty = true := not_not_intro rfl
    rw [hport, if_neg hempty]
    split
    · exact ⟨by decide, fun _ => hzero, fun _ => by decide⟩
    · split
      · exact ⟨by decide, fun _ => hzero, fun _ => by decide⟩
      · exact ⟨by decide, fun _ => hzero, fun _ => by decide⟩
  · have hnonempty : (ofNat n).isEmpty = false := by
      have hdecimal := isDecimal_ofNat n
      cases hunits : (ofNat n).units with
      | nil =>
          rw [isDecimal, hunits] at hdecimal
          cases hdecimal
      | cons u us => rw [isEmpty, hunits, List.isEmpty_cons]
    rw [hport, hnonempty, if_pos Bool.false_ne_true, decimalValue_ofNat]
    refine ⟨hn, ?_⟩
    constructor
    · intro hpos heq
      have hvalue := congrArg decimalValue heq
      rw [decimalValue_ofNat, decimalValue_ofNat] at hvalue
      omega
    · intro hne
      rw [Nat.one_le_iff_ne_zero]
      rintro rfl
      exact hne rfl

/-- The projection of an instance. -/
theorem projection_facts (host : SliceHost) (x : ServiceInstance urls) :
  ∃ fields, projection host x (ofString "ki-" ++ identityHash host x) = .ok fields ∧
    (Admitted fields ↔ ¬ HasPortZero host x)
  := by
  cases hendpoints : x.endpoints with
  | nil =>
      refine ⟨_, by rw [projection, hendpoints], ?_⟩
      constructor
      · rintro - ⟨endpoint, parsed, hhead, -⟩
        rw [hendpoints] at hhead
        cases hhead
      · intro
        have hport : 1 ≤ 65535 := by decide
        refine ⟨⟨_, rfl, ?_⟩, le_rfl, hport⟩
        apply isDnsName_fallbackHost
  | cons endpoint rest =>
      have hparse : ∃ parsed, urls.parse endpoint.val.val = some parsed := by
        have haccepted := endpoint.property
        simp only [Registry.endpoint, text_val, bind, Except.bind] at haccepted
        split at haccepted
        · cases haccepted
        · rename_i parsed hparsed
          exact ⟨parsed, hparsed⟩
      obtain ⟨parsed, hparsed⟩ := hparse
      obtain ⟨hmost, hleast⟩ := portOf_bounds host parsed
      have hzero : HasPortZero host x ↔ host.urls.port parsed = ofNat 0 := by
        constructor
        · rintro ⟨endpoint', parsed', hhead, hparsed', hport⟩
          rw [hendpoints, List.head?_cons, Option.some.injEq] at hhead
          subst hhead
          rw [hparsed, Option.some.injEq] at hparsed'
          rw [hparsed', hport]
        · intro hport
          exact ⟨endpoint, parsed, by rw [hendpoints]; rfl, hparsed, hport⟩
      have hprojection : projection host x (ofString "ki-" ++ identityHash host x) =
          .ok ⟨(address host (hostOf host parsed) (ofString "ki-" ++ identityHash host x)).1,
            [(address host (hostOf host parsed) (ofString "ki-" ++ identityHash host x)).2],
            portOf host parsed⟩ := by
        rw [projection, hendpoints]
        dsimp only
        rw [hparsed]
      refine ⟨_, hprojection, ?_⟩
      rw [hzero, ← ne_eq, ← hleast]
      constructor
      · intro hadmitted
        exact hadmitted.2.1
      · intro hpos
        exact ⟨⟨_, rfl, isAddress_address host parsed _ _⟩, hpos, hmost⟩

end Registry.Kubernetes.Codec
