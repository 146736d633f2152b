import GoLike.Lib.Traced
import GoLike.Registry.Mdns.Ipv6

/-!
# DNS messages

A message is a header with the number of questions and records, and these one after the other. Names
are written out when they are encoded; those that are decoded may be compressed, by pointers to
labels elsewhere in the message. What is decoded is read by a cursor, and the model keeps what is
read and where the cursor is put.
-/

open JsString

namespace Registry.Mdns

inductive DNSRecordType where
  | A
  | AAAA
  | PTR
  | SRV
  | TXT
  deriving DecidableEq

/-- What a question asks for. -/
inductive DNSQuestionType where
  | record (type : DNSRecordType)
  | ANY
  deriving DecidableEq

structure DNSQuestion where
  name : JsString
  type : DNSQuestionType

structure DNSSRVData where
  priority : JsNumber
  weight : JsNumber
  port : JsNumber
  target : JsString

/-- The data of a record: a string, SRV data or the items of a TXT record. -/
inductive DNSData where
  | string (value : JsString)
  | srv (value : DNSSRVData)
  | items (values : List (List UInt8))

structure DNSRecord where
  name : JsString
  type : DNSRecordType
  ttl : JsNumber
  flush : Bool
  data : DNSData

structure DNSPacket where
  id : JsNumber
  response : Bool
  questions : List DNSQuestion
  answers : List DNSRecord
  authorities : List DNSRecord
  additionals : List DNSRecord

def typeCodes : DNSRecordType → ℕ
  | .A => 1
  | .PTR => 12
  | .TXT => 16
  | .AAAA => 28
  | .SRV => 33

def recordType (code : ℕ) : Option DNSRecordType :=
  if code = 1 then some .A
  else if code = 12 then some .PTR
  else if code = 16 then some .TXT
  else if code = 28 then some .AAAA
  else if code = 33 then some .SRV
  else none

/-! ### Numbers -/

/-- The integer from zero to a bound that a number is. -/
def integerUpTo (bound : ℕ) (value : JsNumber) : Option ℕ :=
  value.toSafeNat?.filter (· ≤ bound)

/-- The ceiling of a packet. -/
def packetLimit (value : JsNumber) : Except RegistryError ℕ :=
  match (integerUpTo 1200 value).filter (512 ≤ ·) with
  | some limit => .ok limit
  | none => .error (.rangeError "DNS maximumBytes must be an integer from 512 through 1200")

def writeU16 (value : JsNumber) : Except RegistryError (List UInt8) :=
  match integerUpTo 65535 value with
  | some n => .ok [UInt8.ofNat (n >>> 8 &&& 255), UInt8.ofNat (n &&& 255)]
  | none => .error (.rangeError "DNS uint16 value is out of range")

def writeU32 (value : JsNumber) : Except RegistryError (List UInt8) :=
  match integerUpTo 2147483647 value with
  | some n => .ok [UInt8.ofNat (n >>> 24 &&& 255), UInt8.ofNat (n >>> 16 &&& 255),
      UInt8.ofNat (n >>> 8 &&& 255), UInt8.ofNat (n &&& 255)]
  | none => .error (.rangeError "DNS TTL value is out of range")

/-! ### Names -/

/-- The unit of a label. -/
def isLabelUnit (u : UInt16) : Bool :=
  (65 ≤ u && u ≤ 90) || (97 ≤ u && u ≤ 122) || (48 ≤ u && u ≤ 57) || u == 95 || u == 45

/-- Validate labels, with the number of bytes that they take on the wire. -/
def normalizeLabels : List JsString → Except RegistryError (List JsString × ℕ)
  | [] => .ok ([], 0)
  | labelValue :: labels =>
      if labelValue.isEmpty ∨ ¬ labelValue.units.all isLabelUnit = true then
        .error (.typeError
          "DNS label must contain only ASCII letters, digits, hyphen, or underscore")
      else
        let label := labelValue.lowerAscii
        let bytes := label.encodeUtf8
        if bytes.length > 63 then .error (.rangeError "DNS label exceeds 63 bytes")
        else do
          let rest ← normalizeLabels labels
          .ok (label :: rest.1, bytes.length + 1 + rest.2)

/-- The normalized name of labels. -/
def validateDNSName (labels : List JsString) : Except RegistryError JsString :=
  if labels = [] then .error (.typeError "DNS name labels must be non-empty")
  else do
    let normalized ← normalizeLabels labels
    if 1 + normalized.2 > 255 then .error (.rangeError "encoded DNS name exceeds 255 bytes")
    else .ok (joinWith (ofString ".") normalized.1 ++ ofString ".")

/-- Encode a name, without compression. -/
def encodeName (value : JsString) : Except RegistryError (List UInt8) := do
  let bare : JsString :=
    if value.units.getLast? = some dot then ⟨value.units.dropLast⟩ else value
  let normalized ← validateDNSName (bare.split (ofString "."))
  let labels := (JsString.mk normalized.units.dropLast).split (ofString ".")
  .ok (labels.flatMap (fun label =>
    let bytes := label.encodeUtf8
    UInt8.ofNat bytes.length :: bytes) ++ [0])

/-! ### Encoding -/

/-- The items of a TXT record. -/
def encodeTXTItems : List (List UInt8) → Except RegistryError (List UInt8)
  | [] => .ok []
  | item :: items =>
      if item.length > 255 then .error (.rangeError "DNS TXT item exceeds 255 bytes")
      else do
        let rest ← encodeTXTItems items
        .ok (UInt8.ofNat item.length :: item ++ rest)

def encodeRecordData (lower : LowerCase) (record : DNSRecord) :
    Except RegistryError (List UInt8) :=
  match record.type, record.data with
  | .A, .string value => encodeIPv4 value
  | .A, _ => .error (.typeError "DNS A data must be a string")
  | .AAAA, .string value => encodeIPv6 lower value
  | .AAAA, _ => .error (.typeError "DNS AAAA data must be a string")
  | .PTR, .string value => encodeName value
  | .PTR, _ => .error (.typeError "DNS PTR data must be a name")
  | .SRV, .srv value => do
      let priority ← writeU16 value.priority
      let weight ← writeU16 value.weight
      let port ← writeU16 value.port
      let target ← encodeName value.target
      .ok (priority ++ weight ++ port ++ target)
  | .SRV, _ => .error (.typeError "DNS SRV data must be an object")
  | .TXT, .items values => encodeTXTItems values
  | .TXT, _ => .error (.typeError "DNS TXT data must be an array")

def encodeRecord (lower : LowerCase) (record : DNSRecord) : Except RegistryError (List UInt8) := do
  let name ← encodeName record.name
  let type ← writeU16 (.ofNat (typeCodes record.type))
  let classValue ← writeU16 (.ofNat (1 ||| if record.flush then 0x8000 else 0))
  let ttl ← writeU32 record.ttl
  let rdata ← encodeRecordData lower record
  let length ← writeU16 (.ofNat rdata.length)
  .ok (name ++ type ++ classValue ++ ttl ++ length ++ rdata)

def encodeQuestion (question : DNSQuestion) : Except RegistryError (List UInt8) := do
  let name ← encodeName question.name
  let code := match question.type with
    | .ANY => 255
    | .record type => typeCodes type
  let type ← writeU16 (.ofNat code)
  let classValue ← writeU16 (.ofNat 1)
  .ok (name ++ type ++ classValue)

/-- The encodings of values, one after the other. -/
def encodeAll {α : Type} (encode : α → Except RegistryError (List UInt8)) :
    List α → Except RegistryError (List UInt8)
  | [] => .ok []
  | value :: values => do
      let bytes ← encode value
      let rest ← encodeAll encode values
      .ok (bytes ++ rest)

/-- The error for a packet that is longer than the ceiling. -/
def ceilingError (maximum : ℕ) : RegistryError :=
  .rangeError ("DNS packet exceeds configured " ++ toString maximum ++ "-byte ceiling")

/-- Encode a message, up to a ceiling. -/
def encodeDNSPacket (lower : LowerCase) (packet : DNSPacket) (maximumBytes : JsNumber) :
    Except RegistryError (List UInt8) := do
  let maximum ← packetLimit maximumBytes
  let id ← writeU16 packet.id
  let flags ← writeU16 (.ofNat (if packet.response then 0x8400 else 0))
  let questionCount ← writeU16 (.ofNat packet.questions.length)
  let answerCount ← writeU16 (.ofNat packet.answers.length)
  let authorityCount ← writeU16 (.ofNat packet.authorities.length)
  let additionalCount ← writeU16 (.ofNat packet.additionals.length)
  let questions ← encodeAll encodeQuestion packet.questions
  let answers ← encodeAll (encodeRecord lower) packet.answers
  let authorities ← encodeAll (encodeRecord lower) packet.authorities
  let additionals ← encodeAll (encodeRecord lower) packet.additionals
  let output := id ++ flags ++ questionCount ++ answerCount ++ authorityCount ++ additionalCount ++
    questions ++ answers ++ authorities ++ additionals
  if output.length > maximum then .error (ceilingError maximum) else .ok output

/-! ### Reading -/

/-- What decoding does with a packet. -/
inductive Access where
  /-- The bytes from one offset to before another one are read. -/
  | read (start stop : ℕ)
  /-- The cursor is put to an offset. -/
  | moves (offset : ℕ)
  /-- Record data of the given length has been parsed up to an offset. -/
  | rdata (start length stop : ℕ)

/-- A computation that reads a packet. -/
abbrev Reading : Type → Type := Traced Access RegistryError

def readByte (data : List UInt8) (offset : ℕ) : Reading (ℕ × ℕ) :=
  match data[offset]? with
  | none => .after [.read offset (offset + 1)] (.throws (.typeError "DNS packet is truncated"))
  | some value =>
      .after [.read offset (offset + 1), .moves (offset + 1)] (.result (value.toNat, offset + 1))

def readU16 (data : List UInt8) (offset : ℕ) : Reading (ℕ × ℕ) := do
  let high ← readByte data offset
  let low ← readByte data high.2
  .result (high.1 <<< 8 ||| low.1, low.2)

def readU32 (data : List UInt8) (offset : ℕ) : Reading (ℕ × ℕ) := do
  let first ← readByte data offset
  let second ← readByte data first.2
  let third ← readByte data second.2
  let fourth ← readByte data third.2
  .result (first.1 * 16777216 + second.1 <<< 16 + third.1 <<< 8 + fourth.1, fourth.2)

/-- The bytes from one offset to before another one. -/
def bytesBetween (data : List UInt8) (start stop : ℕ) : List UInt8 :=
  (data.drop start).take (stop - start)

/-- The labels of a name, and where the cursor is behind it. Only before the first pointer the
cursor goes with the offset. -/
def nameLabels (data : List UInt8) (cursor : ℕ) (jumped : Bool) (visited : List ℕ)
    (labels : List JsString) (offset iterations : ℕ) : Reading (List JsString × ℕ) :=
  if iterations > 128 then .throws (.typeError "DNS name pointer depth is invalid")
  else
    match data[offset]? with
    | none => .after [.read offset (offset + 1)] (.throws (.typeError "DNS name is truncated"))
    | some length =>
        .after [.read offset (offset + 1)] <|
          if length &&& 0xc0 = 0xc0 then
            match data[offset + 1]? with
            | none =>
                .after [.read (offset + 1) (offset + 2)]
                  (.throws (.typeError "DNS name pointer is truncated"))
            | some next =>
                let pointer := (length &&& 0x3f).toNat <<< 8 ||| next.toNat
                .after [.read (offset + 1) (offset + 2)] <|
                  if pointer ≥ data.length ∨ pointer ∈ visited then
                    .throws (.typeError "DNS name pointer is invalid")
                  else
                    .after (if jumped then [] else [.moves (offset + 2)])
                      (nameLabels data (if jumped then cursor else offset + 2) true
                        (pointer :: visited) labels pointer (iterations + 1))
          else if length &&& 0xc0 ≠ 0 then .throws (.typeError "DNS label length is invalid")
          else if length = 0 then
            .after (if jumped then [] else [.moves (offset + 1)])
              (.result (labels, if jumped then cursor else offset + 1))
          else
            let start := offset + 1
            let stop := start + length.toNat
            if length > 63 ∨ stop > data.length then .throws (.typeError "DNS label is invalid")
            else
              .after [.read start stop] <|
                match decodeUtf8 (bytesBetween data start stop) with
                | none => .throws (.typeError "invalid data")
                | some label =>
                    nameLabels data cursor jumped visited (labels ++ [label]) stop (iterations + 1)
termination_by 129 - iterations

/-- Decode a name, which may be compressed. -/
def decodeName (data : List UInt8) (offset : ℕ) : Reading (JsString × ℕ) := do
  let read ← nameLabels data offset false [] [] offset 0
  if read.1 = [] then .result (ofString ".", read.2)
  else do
    let name ← Traced.lift (validateDNSName read.1)
    .result (name, read.2)

/-! ### Decoding -/

/-- The items of a TXT record. -/
def decodeTXTItems (data : List UInt8) (stop cursor : ℕ) (items : List (List UInt8)) :
    Reading (List (List UInt8) × ℕ) :=
  if cursor < stop then
    match data[cursor]? with
    | none => .after [.read cursor (cursor + 1)] (.throws (.typeError "DNS packet is truncated"))
    | some itemLength =>
        let start := cursor + 1
        .after [.read cursor start, .moves start] <|
          if start + itemLength.toNat > stop then .throws (.typeError "DNS TXT item is truncated")
          else
            .after [.read start (start + itemLength.toNat), .moves (start + itemLength.toNat)]
              (decodeTXTItems data stop (start + itemLength.toNat)
                (items ++ [bytesBetween data start (start + itemLength.toNat)]))
  else .result (items, cursor)
termination_by stop - cursor

/-- The data of a record has been parsed up to an offset. -/
def parsed (start length stop : ℕ) (value : DNSData) : Reading DNSData :=
  .after [.rdata start length stop] (.result value)

def decodeRecordData (data : List UInt8) (type : DNSRecordType) (start length : ℕ) :
    Reading DNSData :=
  let stop := start + length
  if stop > data.length then .throws (.typeError "DNS rdata is truncated")
  else
    match type with
    | .A =>
        if length ≠ 4 then .throws (.typeError "DNS A rdata length is invalid")
        else
          .after [.read start stop]
            (parsed start length (start + 4) (.string (dottedText (bytesBetween data start stop))))
    | .AAAA =>
        .after [.read start stop] do
          let text ← Traced.lift (decodeIPv6 (bytesBetween data start stop))
          parsed start length (start + 16) (.string text)
    | .PTR => do
        let name ← decodeName data start
        if name.2 ≠ stop then .throws (.typeError "DNS PTR rdata length is invalid")
        else parsed start length name.2 (.string name.1)
    | .SRV =>
        if length < 7 then .throws (.typeError "DNS SRV rdata is truncated")
        else do
          let priority ← readU16 data start
          let weight ← readU16 data priority.2
          let port ← readU16 data weight.2
          let target ← decodeName data port.2
          if target.2 ≠ stop then .throws (.typeError "DNS SRV rdata length is invalid")
          else
            parsed start length target.2
              (.srv ⟨.ofNat priority.1, .ofNat weight.1, .ofNat port.1, target.1⟩)
    | .TXT => do
        let items ← decodeTXTItems data stop start []
        parsed start length items.2 (.items items.1)

/-- The cursor is put to an offset. -/
def moveTo (offset : ℕ) : Reading Unit := .does (.moves offset)

/-- Decode a record; one of an unknown type is skipped. -/
def decodeRecord (data : List UInt8) (offset : ℕ) : Reading (Option DNSRecord × ℕ) := do
  let name ← decodeName data offset
  let code ← readU16 data name.2
  let classValue ← readU16 data code.2
  let ttlValue ← readU32 data classValue.2
  let ttl := if ttlValue.1 ≥ 2147483648 then 0 else ttlValue.1
  let length ← readU16 data ttlValue.2
  let start := length.2
  if start + length.1 > data.length then .throws (.typeError "DNS rdata is truncated")
  else
    match recordType code.1 with
    | none => do
        moveTo (start + length.1)
        .result (none, start + length.1)
    | some type =>
        if classValue.1 &&& 0x7fff ≠ 1 then
          .throws (.typeError "DNS record class is unsupported")
        else do
          let value ← decodeRecordData data type start length.1
          moveTo (start + length.1)
          .result (some ⟨name.1, type, .ofNat ttl, classValue.1 &&& 0x8000 ≠ 0, value⟩,
            start + length.1)

/-- What a question asks for with a type code. -/
def questionType (typeCode : ℕ) : Option DNSQuestionType :=
  if typeCode = 255 then some .ANY else (recordType typeCode).map .record

def decodeQuestion (data : List UInt8) (offset : ℕ) : Reading (DNSQuestion × ℕ) := do
  let name ← decodeName data offset
  let typeCode ← readU16 data name.2
  match questionType typeCode.1 with
  | none =>
      .throws (.typeError ("DNS record type " ++ toString typeCode.1 ++ " is unsupported"))
  | some type => do
      let classValue ← readU16 data typeCode.2
      if classValue.1 &&& 0x7fff ≠ 1 then
        .throws (.typeError "DNS question class is unsupported")
      else .result (⟨name.1, type⟩, classValue.2)

/-- Decode a number of values, one after the other. -/
def decodeAll {α : Type} (decode : ℕ → Reading (α × ℕ)) : ℕ → ℕ → Reading (List α × ℕ)
  | 0, offset => .result ([], offset)
  | count + 1, offset => do
      let value ← decode offset
      let rest ← decodeAll decode count value.2
      .result (value.1 :: rest.1, rest.2)

/-- The records of a section. -/
def decodeSection (data : List UInt8) (count offset : ℕ) : Reading (List DNSRecord × ℕ) := do
  let records ← decodeAll (decodeRecord data) count offset
  .result (records.1.reduceOption, records.2)

/-- Decode a message, up to a ceiling. -/
def decodeDNSPacket (data : List UInt8) (maximumBytes : JsNumber) : Reading DNSPacket := do
  let maximum ← Traced.lift (packetLimit maximumBytes)
  if data.length > maximum then .throws (ceilingError maximum)
  else if data.length < 12 then .throws (.typeError "DNS packet header is truncated")
  else do
    let id ← readU16 data 0
    let flags ← readU16 data id.2
    if flags.1 &&& 0x7800 ≠ 0 ∨ flags.1 &&& 0x000f ≠ 0 then
      .throws (.typeError "DNS packet opcode or response code is unsupported")
    else do
      let questionCount ← readU16 data flags.2
      let answerCount ← readU16 data questionCount.2
      let authorityCount ← readU16 data answerCount.2
      let additionalCount ← readU16 data authorityCount.2
      let questions ← decodeAll (decodeQuestion data) questionCount.1 additionalCount.2
      let answers ← decodeSection data answerCount.1 questions.2
      let authorities ← decodeSection data authorityCount.1 answers.2
      let additionals ← decodeSection data additionalCount.1 authorities.2
      if additionals.2 ≠ data.length then .throws (.typeError "DNS packet has trailing bytes")
      else
        .result ⟨.ofNat id.1, flags.1 &&& 0x8000 ≠ 0, questions.1, answers.1, authorities.1,
          additionals.1⟩

end Registry.Mdns
