import GoLike.Lib.Fallible
import GoLike.Registry.Mdns.Dns
import Mathlib.Data.List.ReduceOption

/-!
# Decoding of hostile DNS messages

Whatever bytes are decoded, the reads are inside of them, the cursor goes forward only, and the data
of a record ends where its length says. A failure is one of the errors of the decoder, and a read that
finds the end of the packet is the last one. The names of a message that is decoded are normalized.
-/

open JsString

namespace Registry.Mdns

/-! ### Traces -/

/-- What is done from one position of the cursor to another one. -/
def Orderly (size : ℕ) : ℕ → List Access → ℕ → Prop
  | cursor, [], cursor' => cursor = cursor'
  | cursor, .read _ stop :: trace, cursor' => stop ≤ size ∧ Orderly size cursor trace cursor'
  | cursor, .moves offset :: trace, cursor' =>
      cursor ≤ offset ∧ offset ≤ size ∧ Orderly size offset trace cursor'
  | cursor, .rdata start length stop :: trace, cursor' =>
      stop = start + length ∧ Orderly size cursor trace cursor'

variable {size cursor cursor' : ℕ} {trace : List Access}

theorem Orderly.append {cursor'' : ℕ} {trace' : List Access} (h : Orderly size cursor trace cursor')
    (h' : Orderly size cursor' trace' cursor'') :
  Orderly size cursor (trace ++ trace') cursor''
  := by
  induction trace generalizing cursor with
  | nil =>
      cases h
      exact h'
  | cons access trace ih =>
      cases access with
      | read | rdata => exact ⟨h.1, ih h.2⟩
      | moves offset => exact ⟨h.1, h.2.1, ih h.2.2⟩

/-- What is done before a failure; at last the end of the packet may have been found. -/
def Broken (size cursor : ℕ) (trace : List Access) : Prop :=
  ∃ before cursor', Orderly size cursor before cursor' ∧
    (trace = before ∨ ∃ start stop, trace = before ++ [.read start stop] ∧ size < stop)

theorem Orderly.broken_append {trace' : List Access} (h : Orderly size cursor trace cursor')
    (h' : Broken size cursor' trace') :
  Broken size cursor (trace ++ trace')
  := by
  obtain ⟨before, cursor'', hbefore, hend⟩ := h'
  refine ⟨trace ++ before, cursor'', h.append hbefore, ?_⟩
  obtain rfl | ⟨start, stop, rfl, hstop⟩ := hend
  · exact .inl rfl
  · exact .inr ⟨start, stop, (List.append_assoc _ _ _).symm, hstop⟩

/-- The errors of the decoder. -/
def Declared (e : RegistryError) : Prop :=
  ∃ message, e = .typeError message ∨ e = .rangeError message

theorem declared_typeError (message : String) :
  Declared (.typeError message)
  := ⟨message, .inl rfl⟩

theorem declared_rangeError (message : String) :
  Declared (.rangeError message)
  := ⟨message, .inr rfl⟩

/-- A computation that begins with the cursor at a position keeps order, and what is said of its
result and of the cursor behind it. -/
def Follows {α : Type} (size cursor : ℕ) (ends : α → ℕ → Prop) (m : Reading α) : Prop :=
  m.Keeps (fun trace a => ∃ cursor', Orderly size cursor trace cursor' ∧ ends a cursor')
    (fun trace e => Broken size cursor trace ∧ Declared e)

section Rules

variable {α β : Type} {ends : α → ℕ → Prop}

theorem Follows.result {a : α} (h : ends a cursor) :
  Follows size cursor ends (.result a)
  := Traced.keeps_result ⟨cursor, rfl, h⟩

theorem Follows.throws {e : RegistryError} (h : Declared e) :
  Follows size cursor ends (.throws e)
  := Traced.keeps_throws ⟨⟨[], cursor, rfl, .inl rfl⟩, h⟩

/-- The end of the packet is found. -/
theorem Follows.truncated {start stop : ℕ} {e : RegistryError} (hstop : size < stop)
    (h : Declared e) :
  Follows size cursor ends (.after [.read start stop] (.throws e))
  := ⟨⟨[], cursor, rfl, .inr ⟨start, stop, rfl, hstop⟩⟩, h⟩

theorem Follows.after {m : Reading α} (h : Follows size cursor' ends m)
    (horder : Orderly size cursor trace cursor') :
  Follows size cursor ends (.after trace m)
  := by
  unfold Follows Traced.Keeps at h ⊢
  cases houtcome : m.outcome with
  | ok a =>
      rw [houtcome] at h
      obtain ⟨cursor'', hm, hends⟩ := h
      simp only [Traced.after, houtcome]
      exact ⟨cursor'', horder.append hm, hends⟩
  | error e =>
      rw [houtcome] at h
      simp only [Traced.after, houtcome]
      exact ⟨horder.broken_append h.1, h.2⟩

theorem Follows.read {m : Reading α} {start stop : ℕ} (hstop : stop ≤ size)
    (h : Follows size cursor ends m) :
  Follows size cursor ends (.after [.read start stop] m)
  := h.after ⟨hstop, rfl⟩

theorem Follows.moves {m : Reading α} {offset : ℕ} (hcursor : cursor ≤ offset)
    (hoffset : offset ≤ size) (h : Follows size offset ends m) :
  Follows size cursor ends (.after [.moves offset] m)
  := h.after ⟨hcursor, hoffset, rfl⟩

theorem Follows.bind {m : Reading α} {f : α → Reading β} {ends' : β → ℕ → Prop}
    (h : Follows size cursor ends m)
    (hthen : ∀ a cursor', ends a cursor' → Follows size cursor' ends' (f a)) :
  Follows size cursor ends' (m >>= f)
  := by
  apply Traced.Keeps.andThen h
  rintro trace a ⟨cursor', horder, ha⟩
  apply (hthen a cursor' ha).mono
  · rintro trace' b ⟨cursor'', horder', hb⟩
    exact ⟨cursor'', horder.append horder', hb⟩
  · rintro trace' e ⟨hbroken, he⟩
    exact ⟨horder.broken_append hbroken, he⟩

theorem Follows.lift {outcome : Except RegistryError α} {f : α → Reading β} {ends' : β → ℕ → Prop}
    (herror : ∀ e, outcome = .error e → Declared e)
    (hok : ∀ a, outcome = .ok a → Follows size cursor ends' (f a)) :
  Follows size cursor ends' (Traced.lift outcome >>= f)
  := by
  cases outcome with
  | error e => exact Follows.throws (herror e rfl)
  | ok a => exact hok a rfl

end Rules

/-- The result has the position of the cursor behind it. -/
def At {α : Type} (holds : α → Prop) (read : α × ℕ) (cursor : ℕ) : Prop :=
  read.2 = cursor ∧ holds read.1

/-! ### Numbers -/

variable {data : List UInt8}

theorem lt_of_getElem? {offset : ℕ} {value : UInt8} (h : data[offset]? = some value) :
  offset < data.length
  := (List.getElem?_eq_some_iff.1 h).1

theorem le_of_getElem? {offset : ℕ} (h : data[offset]? = none) :
  data.length ≤ offset
  := List.getElem?_eq_none_iff.1 h

theorem follows_readByte (offset : ℕ) :
  Follows data.length offset (At (fun _ => True)) (readByte data offset)
  := by
  unfold readByte
  cases hbyte : data[offset]? with
  | none =>
      exact Follows.truncated (Nat.lt_succ_of_le (le_of_getElem? hbyte)) (declared_typeError _)
  | some value =>
      have hlt := lt_of_getElem? hbyte
      exact (Follows.result ⟨rfl, trivial⟩).after ⟨hlt, Nat.le_succ offset, hlt, rfl⟩

theorem follows_readU16 (offset : ℕ) :
  Follows data.length offset (At (fun _ => True)) (readU16 data offset)
  := by
  apply (follows_readByte offset).bind
  rintro high _ ⟨rfl, -⟩
  apply (follows_readByte high.2).bind
  rintro low _ ⟨rfl, -⟩
  exact Follows.result ⟨rfl, trivial⟩

theorem follows_readU32 (offset : ℕ) :
  Follows data.length offset (At (fun _ => True)) (readU32 data offset)
  := by
  apply (follows_readByte offset).bind
  rintro first _ ⟨rfl, -⟩
  apply (follows_readByte first.2).bind
  rintro second _ ⟨rfl, -⟩
  apply (follows_readByte second.2).bind
  rintro third _ ⟨rfl, -⟩
  apply (follows_readByte third.2).bind
  rintro fourth _ ⟨rfl, -⟩
  exact Follows.result ⟨rfl, trivial⟩

/-! ### Names -/

/-- The label is one of a normalized name. -/
def IsLabel (label : JsString) : Prop :=
  label.units ≠ [] ∧ label.units.length ≤ 63 ∧
    ∀ u ∈ label.units, isLabelUnit u = true ∧ lowerUnit u = u

/-- The name is normalized, and takes at most 255 bytes on the wire. -/
def IsNormalized (name : JsString) : Prop :=
  ∃ labels : List JsString, labels ≠ [] ∧ (∀ label ∈ labels, IsLabel label) ∧
    1 + (labels.map (fun label => label.units.length + 1)).sum ≤ 255 ∧
    name = joinWith (ofString ".") labels ++ ofString "."

/-- The name of the root, or a normalized name. -/
def IsName (name : JsString) : Prop := name = ofString "." ∨ IsNormalized name

theorem isLabelUnit_lowerUnit {u : UInt16} (h : isLabelUnit u = true) :
  isLabelUnit (lowerUnit u) = true ∧ lowerUnit (lowerUnit u) = lowerUnit u ∧ lowerUnit u < 128
  := by
  have hsmall : u.toNat < 128 := by
    simp only [isLabelUnit, Bool.or_eq_true, Bool.and_eq_true, decide_eq_true_eq, beq_iff_eq,
      UInt16.le_iff_toNat_le] at h
    obtain (((h | h) | h) | rfl) | rfl := h
    · exact lt_of_le_of_lt h.2 (by decide)
    · exact lt_of_le_of_lt h.2 (by decide)
    · exact lt_of_le_of_lt h.2 (by decide)
    · decide
    · decide
  have hall : ∀ n : Fin 128, isLabelUnit (UInt16.ofNat n) = true →
      isLabelUnit (lowerUnit (UInt16.ofNat n)) = true ∧
        lowerUnit (lowerUnit (UInt16.ofNat n)) = lowerUnit (UInt16.ofNat n) ∧
        lowerUnit (UInt16.ofNat n) < 128 := by decide
  have hu := hall ⟨u.toNat, hsmall⟩
  simp only [UInt16.ofNat_toNat] at hu
  exact hu h

theorem normalizeLabels_eq_ok {labels : List JsString} {normalized : List JsString × ℕ}
    (h : normalizeLabels labels = .ok normalized) :
  normalized.1.length = labels.length ∧ (∀ label ∈ normalized.1, IsLabel label) ∧
    normalized.2 = (normalized.1.map (fun label => label.units.length + 1)).sum
  := by
  induction labels generalizing normalized with
  | nil =>
      cases h
      exact ⟨rfl, fun _ h => absurd h List.not_mem_nil, rfl⟩
  | cons labelValue labels ih =>
      unfold normalizeLabels at h
      split at h
      · cases h
      · rename_i hform
        dsimp only at h
        split at h
        · cases h
        · rename_i hbytes
          obtain ⟨rest, hrest, h⟩ := Except.bind_eq_ok_iff.1 h
          cases h
          obtain ⟨hlength, hlabels, hsum⟩ := ih hrest
          obtain ⟨hne, hunits⟩ := not_or.1 hform
          have hlabel : ∀ u ∈ labelValue.lowerAscii.units,
              isLabelUnit u = true ∧ lowerUnit u = u ∧ u < 128 := by
            intro u hu
            obtain ⟨v, hv, rfl⟩ := List.mem_map.1 hu
            exact isLabelUnit_lowerUnit (List.all_eq_true.1 (not_not.1 hunits) v hv)
          have hsize : labelValue.lowerAscii.encodeUtf8.length =
              labelValue.lowerAscii.units.length := by
            rw [encodeUtf8_ascii (fun u hu => (hlabel u hu).2.2), List.length_map]
          refine ⟨by simp [hlength], ?_, ?_⟩
          · intro label hmem
            obtain rfl | hmem := List.mem_cons.1 hmem
            · refine ⟨?_, by omega, fun u hu => ⟨(hlabel u hu).1, (hlabel u hu).2.1⟩⟩
              intro hnil
              apply hne
              rw [lowerAscii, List.map_eq_nil_iff] at hnil
              exact List.isEmpty_iff.2 hnil
            · exact hlabels label hmem
          · rw [List.map_cons, List.sum_cons, hsize, hsum]

theorem declared_of_normalizeLabels {labels : List JsString} {e : RegistryError}
    (h : normalizeLabels labels = .error e) :
  Declared e
  := by
  induction labels with
  | nil => cases h
  | cons labelValue labels ih =>
      unfold normalizeLabels at h
      split at h
      · cases h
        exact declared_typeError _
      · dsimp only at h
        split at h
        · cases h
          exact declared_rangeError _
        · obtain h | ⟨rest, -, h⟩ := Except.bind_eq_error_iff.1 h
          · exact ih h
          · cases h

theorem declared_of_validateDNSName {labels : List JsString} {e : RegistryError}
    (h : validateDNSName labels = .error e) :
  Declared e
  := by
  unfold validateDNSName at h
  split at h
  · cases h
    exact declared_typeError _
  · obtain h | ⟨normalized, -, h⟩ := Except.bind_eq_error_iff.1 h
    · exact declared_of_normalizeLabels h
    · split at h
      · cases h
        exact declared_rangeError _
      · cases h

/-- A name that is validated is normalized. -/
theorem isNormalized_of_validateDNSName {labels : List JsString} {name : JsString}
    (h : validateDNSName labels = .ok name) :
  IsNormalized name
  := by
  unfold validateDNSName at h
  split at h
  · cases h
  · rename_i hne
    obtain ⟨normalized, hnormalized, h⟩ := Except.bind_eq_ok_iff.1 h
    split at h
    · cases h
    · rename_i hwire
      cases h
      obtain ⟨hlength, hlabels, hsum⟩ := normalizeLabels_eq_ok hnormalized
      refine ⟨normalized.1, ?_, hlabels, by omega, rfl⟩
      intro hnil
      rw [hnil, List.length_nil] at hlength
      exact hne (List.length_eq_zero_iff.1 hlength.symm)

/-- However the labels are linked, reading them keeps order. -/
theorem follows_nameLabels {cursor : ℕ} {jumped : Bool} {visited : List ℕ} {labels : List JsString}
    {offset iterations position : ℕ} (hjumped : jumped = true → position = cursor)
    (hplain : jumped = false → position ≤ offset) :
  Follows data.length position (At (fun _ => True))
    (nameLabels data cursor jumped visited labels offset iterations)
  := by
  -- the iterations that are left decrease with every label and every pointer
  induction hleft : 129 - iterations generalizing cursor jumped visited labels offset iterations
    position with
  | zero =>
      have hmany : iterations > 128 := by omega
      rw [nameLabels, if_pos hmany]
      exact Follows.throws (declared_typeError _)
  | succ left ih =>
      have hfew : ¬ iterations > 128 := by omega
      rw [nameLabels, if_neg hfew]
      cases hlength : data[offset]? with
      | none =>
          exact Follows.truncated (Nat.lt_succ_of_le (le_of_getElem? hlength))
            (declared_typeError _)
      | some length =>
          have hoffset := lt_of_getElem? hlength
          apply Follows.read hoffset
          split
          · cases hnext : data[offset + 1]? with
            | none =>
                exact Follows.truncated (Nat.lt_succ_of_le (le_of_getElem? hnext))
                  (declared_typeError _)
            | some next =>
                have hoffset' := lt_of_getElem? hnext
                apply Follows.read hoffset'
                split
                · exact Follows.throws (declared_typeError _)
                · cases jumped with
                  | true => exact ih hjumped Bool.noConfusion (by omega)
                  | false =>
                      have hposition := hplain rfl
                      apply Follows.moves (by omega) hoffset'
                      exact ih (fun _ => rfl) Bool.noConfusion (by omega)
          · split
            · exact Follows.throws (declared_typeError _)
            · split
              · cases jumped with
                | true => exact Follows.result ⟨(hjumped rfl).symm, trivial⟩
                | false =>
                    have hposition := hplain rfl
                    apply Follows.moves (by omega) hoffset
                    exact Follows.result ⟨rfl, trivial⟩
              · dsimp only
                split
                · exact Follows.throws (declared_typeError _)
                · rename_i hlabel
                  apply Follows.read (by omega)
                  split
                  · exact Follows.throws (declared_typeError _)
                  · apply ih hjumped _ (by omega)
                    intro hplain'
                    have hposition := hplain hplain'
                    omega

/-- The labels of a name are read in a bounded number of passes. -/
theorem length_nameLabels (cursor : ℕ) (jumped : Bool) (visited : List ℕ) (labels : List JsString)
    (offset iterations : ℕ) :
  (nameLabels data cursor jumped visited labels offset iterations).trace.length ≤
    3 * (129 - iterations)
  := by
  induction hleft : 129 - iterations generalizing cursor jumped visited labels offset iterations with
  | zero =>
      have hmany : iterations > 128 := by omega
      rw [nameLabels, if_pos hmany]
      exact Nat.zero_le _
  | succ left ih =>
      have hfew : ¬ iterations > 128 := by omega
      have hthrows : ∀ e : RegistryError,
          (Traced.throws e : Reading (List JsString × ℕ)).trace.length = 0 := fun _ => rfl
      have hmove : ∀ offset : ℕ, (if jumped then [] else [Access.moves offset]).length ≤ 1 := by
        intro offset
        cases jumped <;> simp
      rw [nameLabels, if_neg hfew]
      cases data[offset]? with
      | none =>
          rw [Traced.length_after, hthrows]
          simp
          omega
      | some length =>
          rw [Traced.length_after]
          split
          · cases data[offset + 1]? with
            | none =>
                rw [Traced.length_after, hthrows]
                simp
                omega
            | some next =>
                dsimp only
                rw [Traced.length_after]
                split
                · rw [hthrows]
                  simp
                  omega
                · have := ih (if jumped then cursor else offset + 2) true
                    (((length &&& 0x3f).toNat <<< 8 ||| next.toNat) :: visited) labels
                    ((length &&& 0x3f).toNat <<< 8 ||| next.toNat) (iterations + 1) (by omega)
                  have := hmove (offset + 2)
                  rw [Traced.length_after]
                  simp only [List.length_singleton]
                  omega
          · split
            · rw [hthrows]
              simp
              omega
            · split
              · have := hmove (offset + 1)
                rw [Traced.length_after]
                simp [Traced.result]
                omega
              · dsimp only
                split
                · rw [hthrows]
                  simp
                  omega
                · rw [Traced.length_after]
                  split
                  · rw [hthrows]
                    simp
                    omega
                  · rename_i label hlabel
                    have := ih cursor jumped visited (labels ++ [label]) (offset + 1 + length.toNat)
                      (iterations + 1) (by omega)
                    simp only [List.length_singleton]
                    omega

theorem follows_decodeName (offset : ℕ) :
  Follows data.length offset (At IsName) (decodeName data offset)
  := by
  apply (follows_nameLabels (fun h => Bool.noConfusion h) (fun _ => le_rfl)).bind
  rintro read _ ⟨rfl, -⟩
  split
  · exact Follows.result ⟨rfl, .inl rfl⟩
  · apply Follows.lift
    · exact fun _ => declared_of_validateDNSName
    · intro name hname
      exact Follows.result ⟨rfl, .inr (isNormalized_of_validateDNSName hname)⟩

/-! ### Records -/

/-- The names in the data of a record. -/
def dataNames : DNSRecordType → DNSData → List JsString
  | .PTR, .string value => [value]
  | .SRV, .srv value => [value.target]
  | _, _ => []

def DNSRecord.names (record : DNSRecord) : List JsString :=
  record.name :: dataNames record.type record.data

/-- All names of a message. -/
def DNSPacket.names (packet : DNSPacket) : List JsString :=
  packet.questions.map DNSQuestion.name ++
    (packet.answers ++ packet.authorities ++ packet.additionals).flatMap DNSRecord.names

theorem Follows.parsed {start length stop : ℕ} {value : DNSData} {ends : DNSData → ℕ → Prop}
    (hstop : stop = start + length) (h : ends value cursor) :
  Follows size cursor ends (parsed start length stop value)
  := Follows.after (Follows.result h) ⟨hstop, rfl⟩

/-- The items of a TXT record end where its data does. -/
theorem follows_decodeTXTItems {stop offset : ℕ} (items : List (List UInt8))
    (hoffset : offset ≤ stop) (hstop : stop ≤ data.length) :
  Follows data.length offset (fun read cursor => read.2 = cursor ∧ cursor = stop)
    (decodeTXTItems data stop offset items)
  := by
  induction hleft : stop - offset using Nat.strong_induction_on generalizing offset items with
  | h left ih =>
      rw [decodeTXTItems]
      by_cases hmore : offset < stop
      · rw [if_pos hmore]
        cases hbyte : data[offset]? with
        | none =>
            have hle := le_of_getElem? hbyte
            omega
        | some itemLength =>
            have hlt := lt_of_getElem? hbyte
            dsimp only
            by_cases hfits : offset + 1 + itemLength.toNat > stop
            · rw [if_pos hfits]
              exact (Follows.throws (declared_typeError _)).after
                ⟨hlt, Nat.le_succ offset, hlt, rfl⟩
            · rw [if_neg hfits]
              have hle : offset + 1 + itemLength.toNat ≤ stop := Nat.le_of_not_lt hfits
              have hrest := ih (stop - (offset + 1 + itemLength.toNat)) (by omega)
                (items ++ [bytesBetween data (offset + 1) (offset + 1 + itemLength.toNat)]) hle rfl
              have hitem : offset + 1 ≤ offset + 1 + itemLength.toNat := Nat.le_add_right _ _
              have hsize := hle.trans hstop
              have horder : Orderly data.length (offset + 1)
                  [.read (offset + 1) (offset + 1 + itemLength.toNat),
                    .moves (offset + 1 + itemLength.toNat)] (offset + 1 + itemLength.toNat) :=
                ⟨hsize, hitem, hsize, rfl⟩
              exact (hrest.after horder).after ⟨hlt, Nat.le_succ offset, hlt, rfl⟩
      · rw [if_neg hmore]
        exact Follows.result ⟨rfl, by omega⟩

theorem length_of_decodeIPv6 {bytes : List UInt8} {text : JsString}
    (h : decodeIPv6 bytes = .ok text) :
  bytes.length = 16
  := by
  unfold decodeIPv6 at h
  split at h
  · cases h
  · rename_i hlength
    exact not_not.1 hlength

theorem declared_of_decodeIPv6 {bytes : List UInt8} {e : RegistryError}
    (h : decodeIPv6 bytes = .error e) :
  Declared e
  := by
  unfold decodeIPv6 at h
  split at h
  · cases h
    exact declared_typeError _
  · cases h

theorem length_bytesBetween {start stop : ℕ} (h : stop ≤ data.length) :
  (bytesBetween data start stop).length = stop - start
  := by
  rw [bytesBetween, List.length_take, List.length_drop]
  omega

/-- The data of a record ends where its length says. -/
theorem follows_decodeRecordData (type : DNSRecordType) (start length : ℕ) :
  Follows data.length start
    (fun value stop => stop ≤ start + length ∧ ∀ name ∈ dataNames type value, IsName name)
    (decodeRecordData data type start length)
  := by
  have hnone : ∀ name : JsString, name ∈ ([] : List JsString) → IsName name :=
    fun _ h => absurd h List.not_mem_nil
  unfold decodeRecordData
  dsimp only
  split
  · exact Follows.throws (declared_typeError _)
  · rename_i hstop
    have hsize : start + length ≤ data.length := Nat.le_of_not_lt hstop
    cases type with
    | A =>
        dsimp only
        split
        · exact Follows.throws (declared_typeError _)
        · rename_i hlength
          apply Follows.read hsize
          apply Follows.parsed (by omega)
          exact ⟨Nat.le_add_right start length, hnone⟩
    | AAAA =>
        apply Follows.read hsize
        apply Follows.lift
        · exact fun _ => declared_of_decodeIPv6
        · intro text htext
          have hlength := length_of_decodeIPv6 htext
          rw [length_bytesBetween hsize] at hlength
          apply Follows.parsed (by omega)
          exact ⟨Nat.le_add_right start length, hnone⟩
    | PTR =>
        apply (follows_decodeName start).bind
        rintro name _ ⟨rfl, hname⟩
        split
        · exact Follows.throws (declared_typeError _)
        · rename_i hend
          apply Follows.parsed (not_not.1 hend)
          refine ⟨(not_not.1 hend).le, ?_⟩
          intro name' hname'
          rw [List.mem_singleton.1 hname']
          exact hname
    | SRV =>
        dsimp only
        split
        · exact Follows.throws (declared_typeError _)
        · apply (follows_readU16 start).bind
          rintro priority _ ⟨rfl, -⟩
          apply (follows_readU16 priority.2).bind
          rintro weight _ ⟨rfl, -⟩
          apply (follows_readU16 weight.2).bind
          rintro port _ ⟨rfl, -⟩
          apply (follows_decodeName port.2).bind
          rintro target _ ⟨rfl, htarget⟩
          split
          · exact Follows.throws (declared_typeError _)
          · rename_i hend
            apply Follows.parsed (not_not.1 hend)
            refine ⟨(not_not.1 hend).le, ?_⟩
            intro name hname
            rw [List.mem_singleton.1 hname]
            exact htarget
    | TXT =>
        apply (follows_decodeTXTItems [] (Nat.le_add_right start length) hsize).bind
        rintro items _ ⟨rfl, hend⟩
        exact Follows.parsed hend ⟨hend.le, hnone⟩

theorem follows_moveTo {offset : ℕ} (hcursor : cursor ≤ offset) (hoffset : offset ≤ size) :
  Follows size cursor (fun _ stop => stop = offset) (moveTo offset)
  := ⟨offset, ⟨hcursor, hoffset, rfl⟩, rfl⟩

/-- The names of a record, if there is one, are names. -/
def RecordNames (record : Option DNSRecord) : Prop := ∀ r ∈ record, ∀ name ∈ r.names, IsName name

theorem follows_decodeRecord (offset : ℕ) :
  Follows data.length offset (At RecordNames) (decodeRecord data offset)
  := by
  apply (follows_decodeName offset).bind
  rintro name _ ⟨rfl, hname⟩
  apply (follows_readU16 name.2).bind
  rintro code _ ⟨rfl, -⟩
  apply (follows_readU16 code.2).bind
  rintro classValue _ ⟨rfl, -⟩
  apply (follows_readU32 classValue.2).bind
  rintro ttlValue _ ⟨rfl, -⟩
  apply (follows_readU16 ttlValue.2).bind
  rintro length _ ⟨rfl, -⟩
  dsimp only
  split
  · exact Follows.throws (declared_typeError _)
  · rename_i hstop
    have hsize : length.2 + length.1 ≤ data.length := Nat.le_of_not_lt hstop
    split
    · apply (follows_moveTo (Nat.le_add_right _ _) hsize).bind
      rintro _ _ rfl
      exact Follows.result ⟨rfl, fun _ h => by cases h⟩
    · rename_i type htype
      split
      · exact Follows.throws (declared_typeError _)
      · apply (follows_decodeRecordData type length.2 length.1).bind
        rintro value stop ⟨hle, hnames⟩
        apply (follows_moveTo hle hsize).bind
        rintro _ _ rfl
        apply Follows.result
        refine ⟨rfl, ?_⟩
        rintro r hr name' hname'
        cases hr
        obtain rfl | hname' := List.mem_cons.1 hname'
        · exact hname
        · exact hnames name' hname'

theorem follows_decodeQuestion (offset : ℕ) :
  Follows data.length offset (At (fun question => IsName question.name))
    (decodeQuestion data offset)
  := by
  apply (follows_decodeName offset).bind
  rintro name _ ⟨rfl, hname⟩
  apply (follows_readU16 name.2).bind
  rintro typeCode _ ⟨rfl, -⟩
  split
  · exact Follows.throws (declared_typeError _)
  · apply (follows_readU16 typeCode.2).bind
    rintro classValue _ ⟨rfl, -⟩
    split
    · exact Follows.throws (declared_typeError _)
    · exact Follows.result ⟨rfl, hname⟩

theorem follows_decodeAll {α : Type} {decode : ℕ → Reading (α × ℕ)} {holds : α → Prop}
    (h : ∀ offset, Follows data.length offset (At holds) (decode offset)) (count offset : ℕ) :
  Follows data.length offset (At (fun values => ∀ value ∈ values, holds value))
    (decodeAll decode count offset)
  := by
  induction count generalizing offset with
  | zero => exact Follows.result ⟨rfl, fun _ h => absurd h List.not_mem_nil⟩
  | succ count ih =>
      apply (h offset).bind
      rintro value _ ⟨rfl, hvalue⟩
      apply (ih value.2).bind
      rintro rest _ ⟨rfl, hrest⟩
      exact Follows.result ⟨rfl, List.forall_mem_cons.2 ⟨hvalue, hrest⟩⟩

theorem follows_decodeSection (count offset : ℕ) :
  Follows data.length offset
    (At (fun records => ∀ record ∈ records, ∀ name ∈ record.names, IsName name))
    (decodeSection data count offset)
  := by
  apply (follows_decodeAll follows_decodeRecord count offset).bind
  rintro records _ ⟨rfl, hrecords⟩
  apply Follows.result
  refine ⟨rfl, ?_⟩
  intro record hrecord
  exact hrecords (some record) (List.reduceOption_mem_iff.1 hrecord) record rfl

/-! ### Messages -/

theorem declared_of_packetLimit {maximumBytes : JsNumber} {e : RegistryError}
    (h : packetLimit maximumBytes = .error e) :
  Declared e
  := by
  unfold packetLimit at h
  split at h
  · cases h
  · cases h
    exact declared_rangeError _

/-- A message is decoded up to its last byte. -/
theorem follows_decodeDNSPacket (data : List UInt8) (maximumBytes : JsNumber) :
  Follows data.length 0
    (fun packet cursor => cursor = data.length ∧ ∀ name ∈ packet.names, IsName name)
    (decodeDNSPacket data maximumBytes)
  := by
  apply Follows.lift
  · exact fun _ => declared_of_packetLimit
  · intro maximum hmaximum
    split
    · exact Follows.throws (declared_rangeError _)
    · split
      · exact Follows.throws (declared_typeError _)
      · apply (follows_readU16 0).bind
        rintro id _ ⟨rfl, -⟩
        apply (follows_readU16 id.2).bind
        rintro flags _ ⟨rfl, -⟩
        split
        · exact Follows.throws (declared_typeError _)
        · apply (follows_readU16 flags.2).bind
          rintro questionCount _ ⟨rfl, -⟩
          apply (follows_readU16 questionCount.2).bind
          rintro answerCount _ ⟨rfl, -⟩
          apply (follows_readU16 answerCount.2).bind
          rintro authorityCount _ ⟨rfl, -⟩
          apply (follows_readU16 authorityCount.2).bind
          rintro additionalCount _ ⟨rfl, -⟩
          apply (follows_decodeAll follows_decodeQuestion _ _).bind
          rintro questions _ ⟨rfl, hquestions⟩
          apply (follows_decodeSection _ _).bind
          rintro answers _ ⟨rfl, hanswers⟩
          apply (follows_decodeSection _ _).bind
          rintro authorities _ ⟨rfl, hauthorities⟩
          apply (follows_decodeSection _ _).bind
          rintro additionals _ ⟨rfl, hadditionals⟩
          split
          · exact Follows.throws (declared_typeError _)
          · rename_i hend
            apply Follows.result
            refine ⟨not_not.1 hend, ?_⟩
            intro name hname
            obtain hname | hname := List.mem_append.1 hname
            · obtain ⟨question, hquestion, rfl⟩ := List.mem_map.1 hname
              exact hquestions question hquestion
            · obtain ⟨record, hrecord, hname⟩ := List.mem_flatMap.1 hname
              simp only [List.mem_append] at hrecord
              obtain (hrecord | hrecord) | hrecord := hrecord
              · exact hanswers record hrecord name hname
              · exact hauthorities record hrecord name hname
              · exact hadditionals record hrecord name hname

theorem trace_decodeName (offset : ℕ) :
  (decodeName data offset).trace = (nameLabels data offset false [] [] offset 0).trace
  := by
  apply Traced.trace_andThen
  intro read
  split
  · rfl
  · apply (Traced.trace_andThen _).trans rfl
    exact fun _ => rfl

/-- The positions of the cursor, in order. -/
def positions (trace : List Access) : List ℕ :=
  0 :: trace.filterMap (fun access => match access with
    | .moves offset => some offset
    | _ => none)

theorem Orderly.inside (h : Orderly size cursor trace cursor') {start stop : ℕ}
    (hread : .read start stop ∈ trace) :
  stop ≤ size
  := by
  induction trace generalizing cursor with
  | nil => cases hread
  | cons access trace ih =>
      cases access with
      | read start' stop' =>
          obtain heq | hread := List.mem_cons.1 hread
          · cases heq
            exact h.1
          · exact ih h.2 hread
      | moves offset => exact ih h.2.2 ((List.mem_cons.1 hread).resolve_left Access.noConfusion)
      | rdata start' length' stop' =>
          exact ih h.2 ((List.mem_cons.1 hread).resolve_left Access.noConfusion)

theorem Orderly.exact (h : Orderly size cursor trace cursor') {start length stop : ℕ}
    (hrdata : .rdata start length stop ∈ trace) :
  stop = start + length
  := by
  induction trace generalizing cursor with
  | nil => cases hrdata
  | cons access trace ih =>
      cases access with
      | read start' stop' =>
          exact ih h.2 ((List.mem_cons.1 hrdata).resolve_left Access.noConfusion)
      | moves offset => exact ih h.2.2 ((List.mem_cons.1 hrdata).resolve_left Access.noConfusion)
      | rdata start' length' stop' =>
          obtain heq | hrdata := List.mem_cons.1 hrdata
          · cases heq
            exact h.1
          · exact ih h.2 hrdata

/-- The cursor goes forward, to where it is at the end. -/
theorem Orderly.forward (h : Orderly size cursor trace cursor') :
  (cursor :: (positions trace).tail).Pairwise (· ≤ ·) ∧
    (cursor :: (positions trace).tail).getLast? = some cursor'
  := by
  induction trace generalizing cursor with
  | nil =>
      cases h
      exact ⟨List.pairwise_singleton _ _, rfl⟩
  | cons access trace ih =>
      cases access with
      | read | rdata => exact ih h.2
      | moves offset =>
          obtain ⟨hle, -, h⟩ := h
          obtain ⟨hsorted, hlast⟩ := ih h
          constructor
          · apply List.pairwise_cons.2
            refine ⟨?_, hsorted⟩
            intro position hposition
            obtain rfl | hposition := List.mem_cons.1 hposition
            · exact hle
            · exact hle.trans (List.rel_of_pairwise_cons hsorted hposition)
          · rw [← hlast]
            exact List.getLast?_cons_cons

/-- Every message is decoded or refused: reads are inside of the packet, but for one that finds its
end and is the last; names are read in a bounded number of passes; the cursor goes forward; the data
of records ends where its length says; and what is decoded has normalized names and was read to the
last byte. -/
theorem decodeDNSPacket_total (data : List UInt8) (maximumBytes : JsNumber) :
  ((∃ packet, (decodeDNSPacket data maximumBytes).outcome = .ok packet) ∨
      ∃ e, (decodeDNSPacket data maximumBytes).outcome = .error e ∧ Declared e) ∧
    (∀ before after start stop,
      (decodeDNSPacket data maximumBytes).trace = before ++ .read start stop :: after →
        stop ≤ data.length ∨
          after = [] ∧ ∃ e, (decodeDNSPacket data maximumBytes).outcome = .error e) ∧
    (∀ offset, (decodeName data offset).trace.length ≤ 3 * 129) ∧
    (positions (decodeDNSPacket data maximumBytes).trace).Pairwise (· ≤ ·) ∧
    (∀ start length stop, .rdata start length stop ∈ (decodeDNSPacket data maximumBytes).trace →
      stop = start + length) ∧
    ∀ packet, (decodeDNSPacket data maximumBytes).outcome = .ok packet →
      (∀ name ∈ packet.names, IsName name) ∧
        (positions (decodeDNSPacket data maximumBytes).trace).getLast? = some data.length
  := by
  have hfollows := follows_decodeDNSPacket data maximumBytes
  have hpasses : ∀ offset, (decodeName data offset).trace.length ≤ 3 * 129 := fun offset => by
    rw [trace_decodeName]
    exact length_nameLabels offset false [] [] offset 0
  cases houtcome : (decodeDNSPacket data maximumBytes).outcome with
  | ok packet =>
      obtain ⟨_, horder, rfl, hnames⟩ := hfollows.ok houtcome
      obtain ⟨hsorted, hlast⟩ := horder.forward
      refine ⟨.inl ⟨packet, rfl⟩, ?_, hpasses, hsorted, fun _ _ _ => horder.exact, ?_⟩
      · intro before after start stop htrace
        left
        apply @Orderly.inside _ _ _ _ horder start
        rw [htrace]
        exact List.mem_append_right _ List.mem_cons_self
      · rintro _ ⟨⟩
        exact ⟨hnames, hlast⟩
  | error e =>
      obtain ⟨⟨whole, cursor', horder, hend⟩, he⟩ := hfollows.error houtcome
      have hmem : ∀ access, (∀ start stop, access ≠ .read start stop) →
          access ∈ (decodeDNSPacket data maximumBytes).trace → access ∈ whole := by
        intro access haccess hmem
        obtain htrace | ⟨start, stop, htrace, -⟩ := hend
        · rwa [htrace] at hmem
        · rw [htrace] at hmem
          exact (List.mem_append.1 hmem).resolve_right
            (fun h => haccess start stop (List.mem_singleton.1 h))
      have hpositions : positions (decodeDNSPacket data maximumBytes).trace = positions whole := by
        obtain htrace | ⟨start, stop, htrace, -⟩ := hend
        · rw [htrace]
        · rw [htrace, positions, List.filterMap_append]
          simp [positions]
      refine ⟨.inr ⟨e, rfl, he⟩, ?_, hpasses, ?_, ?_, ?_⟩
      · intro before after start stop htrace
        obtain hwhole | ⟨start', stop', hwhole, -⟩ := hend
        · left
          apply @Orderly.inside _ _ _ _ horder start
          rw [← hwhole, htrace]
          exact List.mem_append_right _ List.mem_cons_self
        · rw [hwhole] at htrace
          obtain rfl | hafter := eq_or_ne after []
          · exact .inr ⟨rfl, e, rfl⟩
          · left
            obtain ⟨more, last, rfl⟩ := (List.eq_nil_or_concat' after).resolve_left hafter
            have hbefore : whole = before ++ .read start stop :: more := by
              have hlasts : whole ++ [.read start' stop'] = (before ++ .read start stop :: more) ++ [last] := by
                rw [htrace, List.append_assoc, List.cons_append]
              exact List.append_inj_left' hlasts rfl
            apply @Orderly.inside _ _ _ _ horder start
            rw [hbefore]
            exact List.mem_append_right _ List.mem_cons_self
      · rw [hpositions]
        exact horder.forward.1
      · intro start length stop hrdata
        exact horder.exact (hmem _ (fun _ _ => Access.noConfusion) hrdata)
      · rintro packet ⟨⟩

end Registry.Mdns
