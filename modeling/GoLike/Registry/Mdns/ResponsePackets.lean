import GoLike.Lib.Fallible
import GoLike.Registry.Mdns.Dns

/-!
# Response packets

The records of a response are put into packets one after the other, each packet with as many as its
ceiling allows. A record that does not fit goes into the next packet, and one that fits into no packet
is an error.
-/

open JsString

namespace Registry.Mdns

variable (lower : LowerCase) (maximumBytes : JsNumber)

/-- The response with given answers. -/
def responsePacket (records : List DNSRecord) : DNSPacket where
  id := .ofNat 0
  response := true
  questions := []
  answers := records
  authorities := []
  additionals := []

/-- The error is a range error. -/
def isRangeError : RegistryError → Bool
  | .rangeError _ => true
  | _ => false

/-- Split the records that are left, with the packets that are complete and the records of the one
that is pending. -/
def splitRecords (packets : List DNSPacket) (pending : List DNSRecord) :
    List DNSRecord → Except RegistryError (List DNSPacket)
  | [] => .ok (if pending = [] then packets else packets ++ [responsePacket pending])
  | record :: records =>
      let candidate := pending ++ [record]
      match encodeDNSPacket lower (responsePacket candidate) maximumBytes with
      | .ok _ => splitRecords packets candidate records
      | .error error =>
          if isRangeError error = false ∨ pending = [] then .error error
          else do
            let _ ← encodeDNSPacket lower (responsePacket [record]) maximumBytes
            splitRecords (packets ++ [responsePacket pending]) [record] records

/-- Split records into packets. -/
def boundedResponsePackets (records : List DNSRecord) : Except RegistryError (List DNSPacket) :=
  splitRecords lower maximumBytes [] [] records

/-! ### What fits into a packet -/

variable {lower maximumBytes}

theorem encodeAll_append {α : Type} {encode : α → Except RegistryError (List UInt8)} {xs ys : List α}
    {bytes : List UInt8} :
  encodeAll encode (xs ++ ys) = .ok bytes ↔
    ∃ left right, encodeAll encode xs = .ok left ∧ encodeAll encode ys = .ok right ∧
      bytes = left ++ right
  := by
  induction xs generalizing bytes with
  | nil =>
      constructor
      · intro h
        exact ⟨[], bytes, rfl, h, rfl⟩
      · rintro ⟨left, right, ⟨⟩, h, rfl⟩
        exact h
  | cons x xs ih =>
      constructor
      · intro h
        obtain ⟨first, hfirst, hbind⟩ := Except.bind_eq_ok_iff.1 h
        obtain ⟨rest, hrest, hbytes⟩ := Except.bind_eq_ok_iff.1 hbind
        cases hbytes
        obtain ⟨left, right, hleft, hright, rfl⟩ := ih.1 hrest
        refine ⟨first ++ left, right, ?_, hright, (List.append_assoc _ _ _).symm⟩
        exact Except.bind_eq_ok_iff.2 ⟨first, hfirst, Except.bind_eq_ok_iff.2 ⟨left, hleft, rfl⟩⟩
      · rintro ⟨left, right, hleft, hright, rfl⟩
        obtain ⟨first, hfirst, hbind⟩ := Except.bind_eq_ok_iff.1 hleft
        obtain ⟨rest, hrest, hbytes⟩ := Except.bind_eq_ok_iff.1 hbind
        cases hbytes
        refine Except.bind_eq_ok_iff.2 ⟨first, hfirst, Except.bind_eq_ok_iff.2
          ⟨rest ++ right, ih.2 ⟨rest, right, hrest, hright, rfl⟩, ?_⟩⟩
        rw [List.append_assoc]

theorem writeU16_ofNat {n : ℕ} (h : n ≤ 65535) :
  writeU16 (.ofNat n) = .ok [UInt8.ofNat (n >>> 8 &&& 255), UInt8.ofNat (n &&& 255)]
  := by
  have hsafe : n ≤ JsNumber.MaxSafeInteger := h.trans (by decide)
  have hinteger : integerUpTo 65535 (.ofNat n) = some n := by
    rw [integerUpTo, JsNumber.toSafeNat?_ofNat hsafe, Option.filter_some, if_pos]
    exact decide_eq_true h
  rw [writeU16, hinteger]

theorem length_writeU16 {value : JsNumber} {bytes : List UInt8} (h : writeU16 value = .ok bytes) :
  bytes.length = 2
  := by
  unfold writeU16 at h
  split at h
  · cases h
    rfl
  · cases h

theorem isRangeError_of_writeU16 {value : JsNumber} {e : RegistryError}
    (h : writeU16 value = .error e) :
  isRangeError e = true
  := by
  unfold writeU16 at h
  split at h
  · cases h
  · cases h
    rfl

/-- The bytes of a response, if they are within the ceiling. -/
def bounded (maximum : ℕ) (count bytes : List UInt8) : Except RegistryError (List UInt8) :=
  let output := [0, 0, 132, 0, 0, 0] ++ count ++ [0, 0, 0, 0] ++ bytes
  if output.length > maximum then .error (ceilingError maximum) else .ok output

theorem encode_responsePacket (records : List DNSRecord) :
  encodeDNSPacket lower (responsePacket records) maximumBytes =
    (packetLimit maximumBytes).bind (fun maximum =>
      (writeU16 (.ofNat records.length)).bind (fun count =>
        (encodeAll (encodeRecord lower) records).bind (bounded maximum count)))
  := by
  have hzero : writeU16 (.ofNat 0) = .ok [0, 0] := writeU16_ofNat (by decide)
  have hflags : writeU16 (.ofNat 0x8400) = .ok [132, 0] := writeU16_ofNat (by decide)
  unfold encodeDNSPacket
  cases packetLimit maximumBytes with
  | error e => rfl
  | ok maximum =>
      simp only [responsePacket, List.length_nil, if_true, hzero, hflags]
      cases writeU16 (.ofNat records.length) with
      | error e => rfl
      | ok count =>
          cases encodeAll (encodeRecord lower) records with
          | error e => rfl
          | ok bytes =>
              simp [bind, Except.bind, encodeAll, bounded]

/-- The records are a response within the ceiling. -/
def Fits (lower : LowerCase) (maximumBytes : JsNumber) (records : List DNSRecord) : Prop :=
  ∃ bytes, encodeDNSPacket lower (responsePacket records) maximumBytes = .ok bytes

theorem encode_eq_ok {records : List DNSRecord} {output : List UInt8} :
  encodeDNSPacket lower (responsePacket records) maximumBytes = .ok output ↔
    ∃ maximum count bytes, packetLimit maximumBytes = .ok maximum ∧
      writeU16 (.ofNat records.length) = .ok count ∧
      encodeAll (encodeRecord lower) records = .ok bytes ∧
      output = [0, 0, 132, 0, 0, 0] ++ count ++ [0, 0, 0, 0] ++ bytes ∧ output.length ≤ maximum
  := by
  rw [encode_responsePacket]
  constructor
  · intro h
    obtain ⟨maximum, hmaximum, h₁⟩ := Except.bind_eq_ok_iff.1 h
    obtain ⟨count, hcount, h₂⟩ := Except.bind_eq_ok_iff.1 h₁
    obtain ⟨bytes, hbytes, h₃⟩ := Except.bind_eq_ok_iff.1 h₂
    unfold bounded at h₃
    dsimp only at h₃
    split at h₃
    · cases h₃
    · rename_i hlength
      cases h₃
      exact ⟨maximum, count, bytes, hmaximum, hcount, hbytes, rfl, Nat.le_of_not_lt hlength⟩
  · rintro ⟨maximum, count, bytes, hmaximum, hcount, hbytes, rfl, hlength⟩
    rw [hmaximum, hcount, hbytes]
    exact if_neg (Nat.not_lt.2 hlength)

theorem writeU16_of_le {m n : ℕ} {bytes : List UInt8} (hmn : m ≤ n)
    (h : writeU16 (.ofNat n) = .ok bytes) :
  ∃ bytes', writeU16 (.ofNat m) = .ok bytes'
  := by
  unfold writeU16 at h
  split at h
  · rename_i k hk
    obtain ⟨hsafe, hle⟩ := Option.filter_eq_some_iff.1 hk
    obtain rfl := JsNumber.eq_of_toSafeNat?_ofNat hsafe
    exact ⟨_, writeU16_ofNat (hmn.trans (of_decide_eq_true hle))⟩
  · cases h

/-- The last records of a response that fits fit by themselves. -/
theorem Fits.of_append {xs ys : List DNSRecord} (h : Fits lower maximumBytes (xs ++ ys)) :
  Fits lower maximumBytes ys
  := by
  obtain ⟨output, houtput⟩ := h
  obtain ⟨maximum, count, bytes, hmaximum, hcount, hbytes, rfl, hlength⟩ := encode_eq_ok.1 houtput
  obtain ⟨left, right, -, hright, rfl⟩ := encodeAll_append.1 hbytes
  obtain ⟨count', hcount'⟩ := writeU16_of_le (m := ys.length) (by simp) hcount
  refine ⟨_, encode_eq_ok.2 ⟨maximum, count', right, hmaximum, hcount', hright, rfl, ?_⟩⟩
  have hwidth := length_writeU16 hcount
  have hwidth' := length_writeU16 hcount'
  simp only [List.length_append, List.length_cons, List.length_nil, hwidth, hwidth'] at hlength ⊢
  omega

/-- Where all records can be encoded, only the lengths may be refused. -/
theorem isRangeError_of_fits {pending : List DNSRecord} {record : DNSRecord} {e : RegistryError}
    (hpending : Fits lower maximumBytes pending) (hrecord : Fits lower maximumBytes [record])
    (h : encodeDNSPacket lower (responsePacket (pending ++ [record])) maximumBytes = .error e) :
  isRangeError e = true
  := by
  obtain ⟨output, houtput⟩ := hpending
  obtain ⟨maximum, -, left, hmaximum, -, hleft, -, -⟩ := encode_eq_ok.1 houtput
  obtain ⟨output', houtput'⟩ := hrecord
  obtain ⟨-, -, right, -, -, hright, -, -⟩ := encode_eq_ok.1 houtput'
  have hall : encodeAll (encodeRecord lower) (pending ++ [record]) = .ok (left ++ right) :=
    encodeAll_append.2 ⟨left, right, hleft, hright, rfl⟩
  rw [encode_responsePacket, hmaximum, hall] at h
  have hcount : (writeU16 (.ofNat (pending ++ [record]).length)).bind
      (fun count => bounded maximum count (left ++ right)) = .error e := h
  obtain hcount | ⟨count, -, hbounded⟩ := Except.bind_eq_error_iff.1 hcount
  · exact isRangeError_of_writeU16 hcount
  · unfold bounded at hbounded
    dsimp only at hbounded
    split at hbounded
    · cases hbounded
      rfl
    · cases hbounded

theorem not_fits_iff {records : List DNSRecord} :
  ¬ Fits lower maximumBytes records ↔
    ∃ e, encodeDNSPacket lower (responsePacket records) maximumBytes = .error e
  := by
  unfold Fits
  cases encodeDNSPacket lower (responsePacket records) maximumBytes with
  | ok | error => simp

/-- What is encoded is within the ceiling. -/
theorem length_encodeDNSPacket {packet : DNSPacket} {bytes : List UInt8}
    (h : encodeDNSPacket lower packet maximumBytes = .ok bytes) :
  ∃ limit, packetLimit maximumBytes = .ok limit ∧ bytes.length ≤ limit
  := by
  unfold encodeDNSPacket at h
  obtain ⟨limit, hlimit, h₁⟩ := Except.bind_eq_ok_iff.1 h
  obtain ⟨_, -, h₂⟩ := Except.bind_eq_ok_iff.1 h₁
  obtain ⟨_, -, h₃⟩ := Except.bind_eq_ok_iff.1 h₂
  obtain ⟨_, -, h₄⟩ := Except.bind_eq_ok_iff.1 h₃
  obtain ⟨_, -, h₅⟩ := Except.bind_eq_ok_iff.1 h₄
  obtain ⟨_, -, h₆⟩ := Except.bind_eq_ok_iff.1 h₅
  obtain ⟨_, -, h₇⟩ := Except.bind_eq_ok_iff.1 h₆
  obtain ⟨_, -, h₈⟩ := Except.bind_eq_ok_iff.1 h₇
  obtain ⟨_, -, h₉⟩ := Except.bind_eq_ok_iff.1 h₈
  obtain ⟨_, -, h₁₀⟩ := Except.bind_eq_ok_iff.1 h₉
  obtain ⟨_, -, h₁₁⟩ := Except.bind_eq_ok_iff.1 h₁₀
  dsimp only at h₁₁
  split at h₁₁
  · cases h₁₁
  · rename_i hlength
    cases h₁₁
    exact ⟨limit, hlimit, Nat.le_of_not_lt hlength⟩

/-! ### The packets carry all records -/

/-- Packets are not empty and within the ceiling. -/
def Sound (lower : LowerCase) (maximumBytes : JsNumber) (packets : List DNSPacket) : Prop :=
  ∀ packet ∈ packets, packet.answers ≠ [] ∧
    ∃ bytes, encodeDNSPacket lower packet maximumBytes = .ok bytes

/-- A step of the loop: a record that fits by itself is added to the pending ones, or they become
a packet. -/
theorem splitRecords_fits {packets : List DNSPacket} {pending records : List DNSRecord}
    {record : DNSRecord} (hpending : pending = [] ∨ Fits lower maximumBytes pending)
    (hrecord : Fits lower maximumBytes [record]) :
  (Fits lower maximumBytes (pending ++ [record]) ∧
      splitRecords lower maximumBytes packets pending (record :: records) =
        splitRecords lower maximumBytes packets (pending ++ [record]) records) ∨
    (pending ≠ [] ∧ splitRecords lower maximumBytes packets pending (record :: records) =
      splitRecords lower maximumBytes (packets ++ [responsePacket pending]) [record] records)
  := by
  rw [splitRecords]
  cases hencode : encodeDNSPacket lower (responsePacket (pending ++ [record])) maximumBytes with
  | ok bytes => exact .inl ⟨⟨bytes, hencode⟩, rfl⟩
  | error e =>
      right
      have hne : pending ≠ [] := by
        rintro rfl
        exact not_fits_iff.2 ⟨e, hencode⟩ hrecord
      have hrange := isRangeError_of_fits (hpending.resolve_left hne) hrecord hencode
      obtain ⟨bytes, hbytes⟩ := hrecord
      refine ⟨hne, ?_⟩
      dsimp only
      rw [if_neg (by simp [hrange, hne]), hbytes]
      rfl

/-- A record that does not fit by itself ends the loop. -/
theorem splitRecords_unfit {packets : List DNSPacket} {pending records : List DNSRecord}
    {record : DNSRecord} (hrecord : ¬ Fits lower maximumBytes [record]) :
  ∃ e, splitRecords lower maximumBytes packets pending (record :: records) = .error e
  := by
  rw [splitRecords]
  cases hencode : encodeDNSPacket lower (responsePacket (pending ++ [record])) maximumBytes with
  | ok bytes => exact absurd (Fits.of_append ⟨bytes, hencode⟩) hrecord
  | error e =>
      obtain ⟨e', he'⟩ := not_fits_iff.1 hrecord
      dsimp only
      split
      · exact ⟨e, rfl⟩
      · rw [he']
        exact ⟨e', rfl⟩

/-- The loop returns where every record fits by itself, with all records in sound packets. -/
theorem splitRecords_returns {packets : List DNSPacket} {pending records : List DNSRecord}
    (hpending : pending = [] ∨ Fits lower maximumBytes pending)
    (hpackets : Sound lower maximumBytes packets)
    (hrecords : ∀ record ∈ records, Fits lower maximumBytes [record]) :
  ∃ result, splitRecords lower maximumBytes packets pending records = .ok result ∧
    result.flatMap DNSPacket.answers = packets.flatMap DNSPacket.answers ++ pending ++ records ∧
    Sound lower maximumBytes result
  := by
  have hflush : ∀ {pending : List DNSRecord} {packets : List DNSPacket}, pending ≠ [] →
      Fits lower maximumBytes pending → Sound lower maximumBytes packets →
      Sound lower maximumBytes (packets ++ [responsePacket pending]) := by
    intro pending packets hne hfits hsound packet hpacket
    obtain hpacket | hpacket := List.mem_append.1 hpacket
    · exact hsound packet hpacket
    · rw [List.mem_singleton.1 hpacket]
      exact ⟨hne, hfits⟩
  induction records generalizing packets pending with
  | nil =>
      rw [splitRecords]
      by_cases hne : pending = []
      · rw [if_pos hne, hne]
        exact ⟨packets, rfl, by simp, hpackets⟩
      · rw [if_neg hne]
        refine ⟨_, rfl, ?_, hflush hne (hpending.resolve_left hne) hpackets⟩
        simp [responsePacket]
  | cons record records ih =>
      obtain ⟨hrecord, hrest⟩ := List.forall_mem_cons.1 hrecords
      obtain ⟨hfits, heq⟩ | ⟨hne, heq⟩ :=
        @splitRecords_fits _ _ packets _ records _ hpending hrecord
      · obtain ⟨result, hresult, hanswers, hsound⟩ := ih (.inr hfits) hpackets hrest
        refine ⟨result, heq.trans hresult, ?_, hsound⟩
        rw [hanswers]
        simp
      · have hcomplete := hflush hne (hpending.resolve_left hne) hpackets
        obtain ⟨result, hresult, hanswers, hsound⟩ := ih (.inr hrecord) hcomplete hrest
        refine ⟨result, heq.trans hresult, ?_, hsound⟩
        rw [hanswers]
        simp [responsePacket]

/-- The loop throws where some record does not fit by itself. -/
theorem splitRecords_throws {packets : List DNSPacket} {pending records : List DNSRecord}
    (hpending : pending = [] ∨ Fits lower maximumBytes pending)
    (hrecords : ∃ record ∈ records, ¬ Fits lower maximumBytes [record]) :
  ∃ e, splitRecords lower maximumBytes packets pending records = .error e
  := by
  induction records generalizing packets pending with
  | nil =>
      obtain ⟨record, hrecord, -⟩ := hrecords
      cases hrecord
  | cons record records ih =>
      by_cases hrecord : Fits lower maximumBytes [record]
      · have hrest : ∃ other ∈ records, ¬ Fits lower maximumBytes [other] := by
          obtain ⟨other, hmem, hother⟩ := hrecords
          obtain rfl | hmem := List.mem_cons.1 hmem
          · exact absurd hrecord hother
          · exact ⟨other, hmem, hother⟩
        obtain ⟨hfits, heq⟩ | ⟨hne, heq⟩ :=
          @splitRecords_fits _ _ packets _ records _ hpending hrecord
        · rw [heq]
          exact ih (.inr hfits) hrest
        · rw [heq]
          exact ih (.inr hrecord) hrest
      · exact splitRecords_unfit hrecord

/-- What is returned are the records in order, in packets that are not empty and within the limit;
and it throws exactly when some record alone cannot be encoded within the limit. -/
theorem boundedResponsePackets_exact (lower : LowerCase) (maximumBytes : JsNumber)
    (records : List DNSRecord) :
  (∀ packets, boundedResponsePackets lower maximumBytes records = .ok packets →
      packets.flatMap DNSPacket.answers = records ∧
        ∀ packet ∈ packets, packet.answers ≠ [] ∧
          ∃ bytes, encodeDNSPacket lower packet maximumBytes = .ok bytes ∧
            ∃ limit, packetLimit maximumBytes = .ok limit ∧ bytes.length ≤ limit) ∧
    ((∃ e, boundedResponsePackets lower maximumBytes records = .error e) ↔
      ∃ record ∈ records, ∃ e,
        encodeDNSPacket lower (responsePacket [record]) maximumBytes = .error e)
  := by
  have hsplit : boundedResponsePackets lower maximumBytes records =
      splitRecords lower maximumBytes [] [] records := rfl
  have hempty : Sound lower maximumBytes [] := fun _ h => absurd h List.not_mem_nil
  rw [hsplit]
  by_cases hrecords : ∀ record ∈ records, Fits lower maximumBytes [record]
  · obtain ⟨result, hresult, hanswers, hsound⟩ := splitRecords_returns (.inl rfl) hempty hrecords
    rw [hresult]
    constructor
    · rintro _ ⟨⟩
      refine ⟨by simpa using hanswers, ?_⟩
      intro packet hpacket
      obtain ⟨hne, bytes, hbytes⟩ := hsound packet hpacket
      exact ⟨hne, bytes, hbytes, length_encodeDNSPacket hbytes⟩
    · constructor
      · rintro ⟨e, ⟨⟩⟩
      · rintro ⟨record, hrecord, hunfit⟩
        exact absurd (hrecords record hrecord) (not_fits_iff.2 hunfit)
  · simp only [not_forall, exists_prop] at hrecords
    obtain ⟨e, he⟩ := @splitRecords_throws _ _ [] [] _ (.inl rfl) hrecords
    rw [he]
    constructor
    · rintro _ ⟨⟩
    · constructor
      · intro _
        obtain ⟨record, hrecord, hunfit⟩ := hrecords
        exact ⟨record, hrecord, not_fits_iff.1 hunfit⟩
      · intro _
        exact ⟨e, rfl⟩

end Registry.Mdns
