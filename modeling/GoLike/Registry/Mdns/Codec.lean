import GoLike.Registry.Mdns.Base64url
import GoLike.Registry.Mdns.Canonical

/-!
# The TXT items of a service instance

A service instance is announced by TXT items: the compressed bytes of its canonical payload
in Base64, cut into numbered chunks, with their number and a hash of the content. Compression,
hashing and JSON parsing are done by the host.
-/

open Store JsString

namespace Registry.Mdns

variable {urls : UrlParser}

/-! ### The host -/

/-- The functions of the host. -/
structure PayloadHost (urls : UrlParser) where
  deflate : List UInt8 → List UInt8
  /-- `none` when a stream is not valid. -/
  inflate : List UInt8 → Option (List UInt8)
  /-- The SHA-256 digest. -/
  digest : List UInt8 → List UInt8
  /-- `none` when a text is not JSON. -/
  parse : JsString → Option Json
  inflate_deflate : ∀ bytes, (deflate bytes).length ≤ 65536 → inflate (deflate bytes) = some bytes
  deflate_ne_nil : ∀ bytes, deflate bytes ≠ []
  parse_canonicalText : ∀ x : ServiceInstance urls, parse (canonicalText x) = some (payload x)

/-- What the host throws. -/
def hostError : RegistryError := .typeError "invalid data"

/-- Compress bytes. -/
def compress (host : PayloadHost urls) (bytes : List UInt8) : Except RegistryError (List UInt8) :=
  if (host.deflate bytes).length > 65536 then
    .error (.rangeError "mDNS decoded payload exceeds configured ceiling")
  else .ok (host.deflate bytes)

/-- Decompress bytes, up to a ceiling. -/
def decompress (host : PayloadHost urls) (bytes : List UInt8) (maximumBytes : ℕ) :
    Except RegistryError (List UInt8) :=
  match host.inflate bytes with
  | none => .error hostError
  | some output =>
      if output.length > maximumBytes then
        .error (.rangeError "mDNS decoded payload exceeds configured ceiling")
      else .ok output

/-! ### The content hash -/

def base32Alphabet : List UInt16 :=
  (List.range 26).map (fun i => UInt16.ofNat (97 + i)) ++
    (List.range 6).map (fun i => UInt16.ofNat (50 + i))

def base32Symbol (bits : ℕ) : UInt16 := base32Alphabet.getD (bits &&& 31) 97

/-- The symbols of all groups of five among the bits of a buffer, and the number of bits that
are left. -/
def base32Groups (buffer bits : ℕ) : List UInt16 × ℕ :=
  if bits ≥ 5 then
    let groups := base32Groups buffer (bits - 5)
    (base32Symbol (buffer >>> (bits - 5)) :: groups.1, groups.2)
  else ([], bits)

def base32Units (buffer bits : ℕ) : List UInt8 → List UInt16
  | [] => [base32Symbol (buffer <<< ((5 - bits) % 5))]
  | byte :: bytes =>
      let buffer := (buffer <<< 8 ||| byte.toNat) % 2 ^ 32
      let groups := base32Groups buffer (bits + 8)
      groups.1 ++ base32Units buffer groups.2 bytes

/-- Encode bytes in lower-case Base32 without padding. -/
def base32 (bytes : List UInt8) : JsString :=
  ⟨(base32Units 0 0 bytes).take ((bytes.length * 8 + 4) / 5)⟩

/-- The hash of the complete payload of an instance. -/
def instanceContentHash (host : PayloadHost urls) (x : ServiceInstance urls) : JsString :=
  ofString "lc-" ++ base32 (host.digest (canonicalBytes x))

/-! ### Encoding -/

/-- The separator of the key and the value of an item. -/
def equalsSign : UInt16 := 61

def wireVersionKey : JsString := ofString "Go-Like-Wire-Version"

def encodingKey : JsString := ofString "Go-Like-Encoding"

def contentHashKey : JsString := ofString "Go-Like-Instance-Content-Hash"

def chunkCountKey : JsString := ofString "Go-Like-Chunk-Count"

def wireVersion : JsString := ofString "2"

def payloadEncoding : JsString := ofString "deflate+base64url"

/-- Fill a string with zeros on the left. -/
def padStart (s : JsString) (width : ℕ) : JsString :=
  ⟨List.replicate (width - s.units.length) 48 ++ s.units⟩

/-- Three decimal digits, or more. -/
def threeDigits (n : ℕ) : JsString := padStart (.ofNat n) 3

def chunkKey (index : ℕ) : JsString := ofString "Go-Like-Chunk-" ++ threeDigits index

/-- The number of units of a chunk. -/
def maximumChunkBytes : ℕ := 255 - "Go-Like-Chunk-000=".length

/-- A TXT item. -/
def txt (key value : JsString) : List UInt8 := (key ++ ⟨[equalsSign]⟩ ++ value).encodeUtf8

/-- A chunk of the encoded payload. -/
def chunk (encoded : JsString) (index : ℕ) : JsString :=
  ⟨(encoded.units.drop (index * maximumChunkBytes)).take maximumChunkBytes⟩

/-- The number of chunks of the encoded payload. -/
def chunkCount (encoded : JsString) : ℕ :=
  (encoded.units.length + maximumChunkBytes - 1) / maximumChunkBytes

/-- The keys and values of the items of an instance. -/
def fields (host : PayloadHost urls) (x : ServiceInstance urls) (encoded : JsString) :
    List (JsString × JsString) :=
  [(wireVersionKey, wireVersion), (encodingKey, payloadEncoding),
    (contentHashKey, instanceContentHash host x),
    (chunkCountKey, threeDigits (chunkCount encoded))] ++
    (List.range (chunkCount encoded)).map (fun index => (chunkKey index, chunk encoded index))

/-- Encode a service instance as TXT items. -/
def encodeInstanceTXT (host : PayloadHost urls) (value : ServiceInstanceInput)
    (maximumDecodedBytes : ℕ) : Except RegistryError (List (List UInt8)) := do
  let x ← snapshotServiceInstance urls value
  let decoded := canonicalBytes x
  if decoded.length > maximumDecodedBytes then
    .error (.rangeError "mDNS canonical payload exceeds configured decoded ceiling")
  else do
    let compressed ← compress host decoded
    .ok ((fields host x (base64url compressed)).map (fun field => txt field.1 field.2))

/-! ### Decoding -/

/-- The string in a message. -/
def shown (s : JsString) : String := String.ofList s.chars

/-- The key and the value of an item. -/
def readItem (item : List UInt8) : Except RegistryError (JsString × JsString) :=
  match decodeUtf8 item with
  | none => .error hostError
  | some text =>
      let separator := text.units.idxOf equalsSign
      if text.units.contains equalsSign = false ∨ separator < 1 then
        .error (.typeError "mDNS TXT item must contain a key and value")
      else .ok (⟨text.units.take separator⟩, ⟨text.units.drop (separator + 1)⟩)

/-- The keys and values of items; the keys have to be distinct. -/
def txtMap (values : List (JsString × JsString)) :
    List (List UInt8) → Except RegistryError (List (JsString × JsString))
  | [] => .ok values
  | item :: items => do
      let field ← readItem item
      if (values.map Prod.fst).contains field.1 then
        .error (.typeError ("mDNS TXT key " ++ shown field.1 ++ " is duplicated"))
      else txtMap (values ++ [field]) items

/-- The value of a key. -/
def required (values : List (JsString × JsString)) (key : JsString) :
    Except RegistryError JsString :=
  match values.find? (fun field => field.1 = key) with
  | none => .error (.typeError ("mDNS TXT key " ++ shown key ++ " is missing"))
  | some field => .ok field.2

/-- The units of the chunks with the given indexes. -/
def joinChunks (values : List (JsString × JsString)) :
    List ℕ → Except RegistryError (List UInt16)
  | [] => .ok []
  | index :: indexes => do
      let value ← required values (chunkKey index)
      let rest ← joinChunks values indexes
      .ok (value.units ++ rest)

/-- The encoded payload of items. -/
def encodedPayload (values : List (JsString × JsString)) : Except RegistryError JsString := do
  let version ← required values wireVersionKey
  if version ≠ wireVersion then .error (.typeError "mDNS wire version is unsupported")
  else do
    let encoding ← required values encodingKey
    if encoding ≠ payloadEncoding then .error (.typeError "mDNS payload encoding is unsupported")
    else do
      let countText ← required values chunkCountKey
      if ¬ (countText.units.length = 3 ∧ countText.units.all isDigit) then
        .error (.typeError "mDNS chunk count is invalid")
      else
        let count := countText.decimalValue
        if count < 1 ∨ count > 999 then .error (.rangeError "mDNS chunk count is out of range")
        else if values.length ≠ count + 4 then
          .error (.typeError "mDNS TXT schema contains missing or unknown fields")
        else do
          let units ← joinChunks values (List.range count)
          .ok ⟨units⟩

/-- The bytes of the payload that items carry. -/
def carriedPayload (host : PayloadHost urls) (values : List (JsString × JsString))
    (maximumDecodedBytes : ℕ) : Except RegistryError (List UInt8) := do
  let encoded ← encodedPayload values
  let compressed ← unbase64url encoded
  decompress host compressed maximumDecodedBytes

/-- A pair of metadata. -/
def metadataPair : Json → Except RegistryError (Σ _ : JsString, JsString)
  | .array [.string key, .string item] => .ok ⟨key, item⟩
  | .array [_, _] => .error (.typeError "mDNS metadata pair is invalid or duplicate")
  | _ => .error (.typeError "mDNS metadata pair is invalid")

/-- Pairs of metadata whose keys are distinct, and have not been seen. -/
def metadataEntries (seen : List JsString) :
    List Json → Except RegistryError (List (Σ _ : JsString, JsString))
  | [] => .ok []
  | candidate :: candidates => do
      let entry ← metadataPair candidate
      if seen.contains entry.1 then
        .error (.typeError "mDNS metadata pair is invalid or duplicate")
      else do
        let entries ← metadataEntries (entry.1 :: seen) candidates
        .ok (entry :: entries)

theorem nodup_of_metadataEntries {seen : List JsString} {candidates : List Json}
    {entries : List (Σ _ : JsString, JsString)}
    (h : metadataEntries seen candidates = .ok entries) :
  (entries.map Sigma.fst).Nodup ∧ ∀ entry ∈ entries, entry.1 ∉ seen
  := by
  induction candidates generalizing seen entries with
  | nil =>
      cases h
      exact ⟨List.nodup_nil, fun _ hentry => absurd hentry List.not_mem_nil⟩
  | cons candidate candidates ih =>
      simp only [metadataEntries, bind_eq_ok] at h
      obtain ⟨entry, -, h⟩ := h
      split at h
      · cases h
      · rename_i hseen
        simp only [bind_eq_ok, Except.ok.injEq] at h
        obtain ⟨others, hothers, rfl⟩ := h
        obtain ⟨hnodup, hnew⟩ := ih hothers
        rw [Bool.not_eq_true, List.contains_eq_mem, decide_eq_false_iff_not] at hseen
        constructor
        · rw [List.map_cons, List.nodup_cons]
          refine ⟨?_, hnodup⟩
          intro hmem
          obtain ⟨other, hother, heq⟩ := List.mem_map.mp hmem
          apply hnew other hother
          rw [heq]
          exact List.mem_cons_self
        · intro other hother
          obtain rfl | hother := List.mem_cons.mp hother
          · exact hseen
          · intro hmem
            exact hnew other hother (List.mem_cons_of_mem _ hmem)

/-- The metadata of a payload. -/
def metadata : Option Json → Except RegistryError StringRecord
  | some (.array candidates) =>
      match h : metadataEntries [] candidates with
      | .error e => .error e
      | .ok entries => .ok ⟨entries, (nodup_of_metadataEntries h).1⟩
  | _ => .error (.typeError "mDNS metadata must be an array of pairs")

/-- The endpoints of a payload. -/
def payloadEndpoints : List Json → Except RegistryError (List JsString)
  | [] => .ok []
  | .string endpoint :: endpoints => do
      let others ← payloadEndpoints endpoints
      .ok (endpoint :: others)
  | _ :: _ => .error (.typeError "mDNS payload endpoint is invalid")

/-- The service instance of a payload. -/
def parsePayload : Json → Except RegistryError (ServiceInstance urls)
  | .object properties =>
      match Json.property properties (ofString "id"), Json.property properties (ofString "name"),
        Json.property properties (ofString "version"),
        Json.property properties (ofString "endpoints") with
      | some (.string id), some (.string name), some (.string version), some (.array elements) => do
          let endpoints ← payloadEndpoints elements
          let metadata ← metadata (Json.property properties (ofString "metadata"))
          snapshotServiceInstance urls ⟨id, name, version, metadata, endpoints⟩
      | _, _, _, _ => .error (.typeError "mDNS payload identity or endpoints are invalid")
  | _ => .error (.typeError "mDNS payload must be an object")

/-- Read a payload, which has to be canonical. -/
def readPayload (host : PayloadHost urls) (values : List (JsString × JsString))
    (decoded : List UInt8) : Except RegistryError (ServiceInstance urls) :=
  match decodeUtf8 decoded with
  | none => .error hostError
  | some json =>
      match host.parse json with
      | none => .error hostError
      | some document => do
          let x ← parsePayload document
          if canonicalText x ≠ json then
            .error (.typeError "mDNS payload is not canonical JSON")
          else do
            let contentHash ← required values contentHashKey
            if instanceContentHash host x ≠ contentHash then
              .error (.typeError "mDNS instance-content hash mismatch")
            else .ok x

/-- Decode TXT items, apart from what is thrown. -/
def decodeItems (host : PayloadHost urls) (items : List (List UInt8))
    (maximumDecodedBytes : ℕ) : Except RegistryError (ServiceInstance urls) := do
  let values ← txtMap [] items
  let decoded ← carriedPayload host values maximumDecodedBytes
  readPayload host values decoded

/-- Decode TXT items. -/
def decodeInstanceTXT (host : PayloadHost urls) (items : List (List UInt8))
    (maximumDecodedBytes : ℕ) : Except RegistryError (ServiceInstance urls) :=
  (decodeItems host items maximumDecodedBytes).mapError
    (fun _ => .protocol "invalid go-like mDNS TXT payload")

end Registry.Mdns
