import GoLike.Registry.Mdns.Codec

/-!
# The round trip of TXT items

The items of a service instance are decoded to its snapshot. What is decoded carries the
canonical payload of the instance, or this payload after a byte order mark, which the text
decoder strips.
-/

open Store JsString

namespace Registry.Mdns

variable {urls : UrlParser}

/-! ### Numbers -/

theorem decimalValue_threeDigits (n : ℕ) :
  (threeDigits n).decimalValue = n
  := by
  have hzeros : ∀ k, (List.replicate k (48 : UInt16)).foldl
      (fun value u => value * 10 + (u.toNat - 48)) 0 = 0 := by
    intro k
    induction k with
    | zero => rfl
    | succ k ih =>
        rw [List.replicate_succ, List.foldl_cons]
        exact ih
  rw [decimalValue, threeDigits, padStart, List.foldl_append, hzeros]
  exact decimalValue_ofNat n

theorem threeDigits_injective :
  Function.Injective threeDigits
  := by
  intro m n h
  rw [← decimalValue_threeDigits m, h, decimalValue_threeDigits]

theorem isDigit_ofNat (n : ℕ) :
  ∀ u ∈ (ofNat n).units, isDigit u = true
  := by
  have hdecimal := isDecimal_ofNat n
  intro u hu
  rw [isDecimal] at hdecimal
  split at hdecimal
  · cases hdecimal
  · rename_i first rest hunits
    rw [hunits] at hu
    simp only [Bool.and_eq_true, List.all_eq_true] at hdecimal
    obtain rfl | hu := List.mem_cons.mp hu
    · exact hdecimal.1.1
    · exact hdecimal.1.2 u hu

theorem isDigit_threeDigits (n : ℕ) :
  ∀ u ∈ (threeDigits n).units, isDigit u = true
  := by
  intro u hu
  obtain hzero | hu := List.mem_append.mp hu
  · rw [List.eq_of_mem_replicate hzero]
    rfl
  · exact isDigit_ofNat n u hu

theorem length_threeDigits {n : ℕ} (h : n < 1000) :
  (threeDigits n).units.length = 3
  := by
  have hlength : (ofNat n).units.length ≤ 3 := by
    rw [ofNat]
    split
    · decide
    · rw [List.length_reverse, List.length_map]
      exact (Nat.digits_length_le_iff (by decide) n).mpr h
  rw [threeDigits, padStart, List.length_append, List.length_replicate]
  omega

/-! ### Keys -/

theorem chunkKey_injective :
  Function.Injective chunkKey
  := by
  intro m n h
  have hunits := congrArg JsString.units h
  apply threeDigits_injective
  have hcancel : (threeDigits m).units = (threeDigits n).units := List.append_cancel_left hunits
  cases hm : threeDigits m
  cases hn : threeDigits n
  rw [hm, hn] at hcancel
  exact congrArg JsString.mk hcancel

/-- A key of an item: a text that is not empty, without a separator. -/
structure IsKey (key : JsString) : Prop where
  text : IsText key.units
  separator : equalsSign ∉ key.units
  first : ∃ u, key.units.head? = some u ∧ u ≠ 0xFEFF

variable {key : JsString}

theorem isKey_of_units (hascii : ∀ u ∈ key.units, u.toNat < 128)
    (hseparator : equalsSign ∉ key.units) (hne : key.units ≠ []) :
  IsKey key
  := by
  constructor
  case text => exact isText_ascii hascii
  case separator => exact hseparator
  case first =>
    obtain ⟨u, rest, hunits⟩ := List.exists_cons_of_ne_nil hne
    refine ⟨u, ?_, ?_⟩
    · rw [hunits]
      rfl
    · rintro rfl
      have hsmall := hascii 0xFEFF (by simp [hunits])
      exact absurd hsmall (by decide)

theorem isKey_chunkKey (index : ℕ) :
  IsKey (chunkKey index)
  := by
  have hdigit : ∀ u ∈ (threeDigits index).units, u.toNat < 58 := by
    intro u hu
    have h := isDigit_threeDigits index u hu
    simp only [isDigit, Bool.and_eq_true, decide_eq_true_eq] at h
    exact h.2
  have hstem : ∀ u ∈ (ofString "Go-Like-Chunk-").units, u.toNat < 128 ∧ u ≠ equalsSign := by
    have hall : (ofString "Go-Like-Chunk-").units.all
        (fun u => u.toNat < 128 ∧ u ≠ equalsSign) = true := by decide
    simpa only [List.all_eq_true, decide_eq_true_eq] using hall
  apply isKey_of_units
  · intro u hu
    obtain hu | hu := List.mem_append.mp hu
    · exact (hstem u hu).1
    · exact (hdigit u hu).trans (by decide)
  · intro hmem
    obtain hu | hu := List.mem_append.mp hmem
    · exact (hstem _ hu).2 rfl
    · exact absurd (hdigit _ hu) (by decide)
  · rintro ⟨⟩

/-- The keys of the fields that every instance has. -/
def fixedKeys : List JsString := [wireVersionKey, encodingKey, contentHashKey, chunkCountKey]

theorem isKey_fixedKeys :
  ∀ key ∈ fixedKeys, IsKey key
  := by
  have hunits : ∀ key ∈ fixedKeys, (∀ u ∈ key.units, u.toNat < 128) ∧ equalsSign ∉ key.units ∧
      key.units ≠ [] := by
    have hall : fixedKeys.all (fun key => key.units.all (fun u => u.toNat < 128) ∧
        equalsSign ∉ key.units ∧ key.units ≠ []) = true := by decide
    simpa only [List.all_eq_true, decide_eq_true_eq] using hall
  intro key hkey
  obtain ⟨hascii, hseparator, hne⟩ := hunits key hkey
  exact isKey_of_units hascii hseparator hne

/-- The key of a chunk is none of the other keys. -/
theorem chunkKey_notMem (index : ℕ) :
  chunkKey index ∉ fixedKeys
  := by
  have hstem : (ofString "Go-Like-Chunk-").units.length = 14 := by decide
  have hkey : ∀ key ∈ fixedKeys, key.units.take 14 ≠ (ofString "Go-Like-Chunk-").units ∨
      ¬ ∀ u ∈ key.units.drop 14, isDigit u = true := by
    have hall : fixedKeys.all (fun key =>
        key.units.take 14 ≠ (ofString "Go-Like-Chunk-").units ∨
          ¬ (key.units.drop 14).all isDigit = true) = true := by decide
    simpa only [List.all_eq_true, decide_eq_true_eq] using hall
  intro hmem
  obtain hne | hdigits := hkey _ hmem
  · apply hne
    rw [← hstem]
    exact List.take_left
  · apply hdigits
    have hdrop : (chunkKey index).units.drop 14 = (threeDigits index).units := by
      rw [← hstem]
      exact List.drop_left
    rw [hdrop]
    exact isDigit_threeDigits index

theorem keys_fields (host : PayloadHost urls) (x : ServiceInstance urls) (encoded : JsString) :
  (fields host x encoded).map Prod.fst =
    fixedKeys ++ (List.range (chunkCount encoded)).map chunkKey
  := by
  simp only [fields, List.map_append, List.map_map]
  rfl

theorem nodup_fields (host : PayloadHost urls) (x : ServiceInstance urls) (encoded : JsString) :
  ((fields host x encoded).map Prod.fst).Nodup
  := by
  rw [keys_fields, List.nodup_append]
  refine ⟨by decide, ?_, ?_⟩
  · exact List.nodup_range.map chunkKey_injective
  · rintro key hkey key' hkey' rfl
    obtain ⟨index, -, rfl⟩ := List.mem_map.mp hkey'
    exact chunkKey_notMem index hkey

/-! ### Items -/

/-- The value of an item: a text. -/
theorem readItem_txt {value : JsString} (hkey : IsKey key) (hvalue : IsText value.units) :
  readItem (txt key value) = .ok (key, value)
  := by
  obtain ⟨u, hhead, hmark⟩ := hkey.first
  have hunits : (key ++ ⟨[equalsSign]⟩ ++ value).units = key.units ++ equalsSign :: value.units := by
    change (key.units ++ [equalsSign]) ++ value.units = _
    simp
  have htext : IsText (key ++ ⟨[equalsSign]⟩ ++ value).units := by
    rw [hunits]
    have hseparator : IsText [equalsSign] := isText_unit (by decide)
    exact hkey.text.append (hseparator.append hvalue)
  have hdecode : decodeUtf8 (txt key value) = some (key ++ ⟨[equalsSign]⟩ ++ value) := by
    apply decodeUtf8_of_isText htext
    rw [hunits, List.head?_append, hhead]
    intro heq
    exact hmark (Option.some.inj heq)
  have hindex : (key.units ++ equalsSign :: value.units).idxOf equalsSign = key.units.length := by
    rw [List.idxOf_append_of_notMem hkey.separator, List.idxOf_cons_self, Nat.add_zero]
  have hpos : ¬ key.units.length < 1 := by
    intro hlt
    have hnil : key.units = [] := List.length_eq_zero_iff.mp (Nat.lt_one_iff.mp hlt)
    rw [hnil] at hhead
    cases hhead
  rw [readItem, hdecode]
  simp only [hunits, hindex]
  rw [if_neg]
  · have hdrop : (key.units ++ equalsSign :: value.units).drop (key.units.length + 1) =
        value.units := by
      rw [← List.drop_drop, List.drop_left]
      rfl
    rw [List.take_left, hdrop]
  · rintro (hcontains | hlt)
    · simp at hcontains
    · exact hpos hlt

variable {values : List (JsString × JsString)}

/-- The items of fields with distinct keys are read back. -/
theorem txtMap_txt {fs : List (JsString × JsString)}
    (hfields : ∀ field ∈ fs, IsKey field.1 ∧ IsText field.2.units)
    (hnodup : ((values ++ fs).map Prod.fst).Nodup) :
  txtMap values (fs.map (fun field => txt field.1 field.2)) = .ok (values ++ fs)
  := by
  induction fs generalizing values with
  | nil => rw [List.map_nil, txtMap, List.append_nil]
  | cons field fs ih =>
      obtain ⟨hkey, hvalue⟩ := hfields field List.mem_cons_self
      have hnew : (values.map Prod.fst).contains field.1 = false := by
        rw [List.contains_eq_mem, decide_eq_false_iff_not]
        intro hmem
        rw [List.map_append, List.nodup_append] at hnodup
        exact hnodup.2.2 _ hmem _ List.mem_cons_self rfl
      have happend : values ++ field :: fs = (values ++ [field]) ++ fs := by simp
      rw [List.map_cons, txtMap, readItem_txt hkey hvalue]
      simp only [bind, Except.bind, hnew, Bool.false_eq_true, if_false]
      rw [happend] at hnodup ⊢
      exact ih (fun other hother => hfields other (List.mem_cons_of_mem _ hother)) hnodup

/-- A field is found by its key. -/
theorem required_of_mem {value : JsString} (hnodup : (values.map Prod.fst).Nodup)
    (hmem : (key, value) ∈ values) :
  required values key = .ok value
  := by
  induction values with
  | nil => cases hmem
  | cons field values ih =>
      rw [List.map_cons, List.nodup_cons] at hnodup
      rw [required, List.find?_cons]
      obtain rfl | hmem := List.mem_cons.mp hmem
      · rw [decide_eq_true rfl]
      · have hne : field.1 ≠ key := by
          rintro rfl
          exact hnodup.1 (List.mem_map.mpr ⟨_, hmem, rfl⟩)
        rw [decide_eq_false hne]
        exact ih hnodup.2 hmem

/-! ### Chunks -/

/-- The chunks are cut one after the other. -/
theorem flatMap_chunks (units : List UInt16) (m n : ℕ) :
  (List.range n).flatMap (fun index => (units.drop (index * m)).take m) = units.take (n * m)
  := by
  induction n with
  | zero => simp
  | succ n ih =>
      rw [List.range_succ, List.flatMap_append, ih, List.flatMap_singleton, Nat.succ_mul,
        List.take_add]

variable {encoded : JsString}

theorem joinChunks_eq {indexes : List ℕ}
    (h : ∀ index ∈ indexes, required values (chunkKey index) = .ok (chunk encoded index)) :
  joinChunks values indexes =
    .ok (indexes.flatMap (fun index => (chunk encoded index).units))
  := by
  induction indexes with
  | nil => rfl
  | cons index indexes ih =>
      rw [joinChunks, h index List.mem_cons_self,
        ih (fun other hother => h other (List.mem_cons_of_mem _ hother))]
      rfl

theorem maximumChunkBytes_eq :
  maximumChunkBytes = 237
  := by decide

theorem chunks_cover (encoded : JsString) :
  encoded.units.length ≤ chunkCount encoded * maximumChunkBytes
  := by
  rw [chunkCount, maximumChunkBytes_eq]
  omega

variable {host : PayloadHost urls}

theorem mem_fields {x : ServiceInstance urls} {index : ℕ} (h : index < chunkCount encoded) :
  (chunkKey index, chunk encoded index) ∈ fields host x encoded
  := by
  apply List.mem_append_right
  exact List.mem_map.mpr ⟨index, List.mem_range.mpr h, rfl⟩

/-- The encoded payload of the fields of an instance, when it has a suitable length. -/
theorem encodedPayload_fields (host : PayloadHost urls) (x : ServiceInstance urls)
    (hne : encoded.units ≠ []) (hlength : encoded.units.length ≤ 237 * 999) :
  encodedPayload (fields host x encoded) = .ok encoded
  := by
  have hnodup := nodup_fields host x encoded
  have hversion : required (fields host x encoded) wireVersionKey = .ok wireVersion :=
    required_of_mem hnodup (by simp [fields])
  have hencoding : required (fields host x encoded) encodingKey = .ok payloadEncoding :=
    required_of_mem hnodup (by simp [fields])
  have hcountText : required (fields host x encoded) chunkCountKey =
      .ok (threeDigits (chunkCount encoded)) :=
    required_of_mem hnodup (by simp [fields])
  have hpos : 0 < encoded.units.length := List.length_pos_iff.mpr hne
  have hcount : 1 ≤ chunkCount encoded ∧ chunkCount encoded ≤ 999 := by
    rw [chunkCount, maximumChunkBytes_eq]
    omega
  have hdigits : (threeDigits (chunkCount encoded)).units.length = 3 ∧
      (threeDigits (chunkCount encoded)).units.all isDigit = true := by
    refine ⟨length_threeDigits (by omega), ?_⟩
    rw [List.all_eq_true]
    exact isDigit_threeDigits _
  have hsize : (fields host x encoded).length = chunkCount encoded + 4 := by
    simp [fields]
  have hjoin : joinChunks (fields host x encoded) (List.range (chunkCount encoded)) =
      .ok encoded.units := by
    have hall : ∀ index ∈ List.range (chunkCount encoded),
        required (fields host x encoded) (chunkKey index) = .ok (chunk encoded index) := by
      intro index hindex
      exact required_of_mem hnodup (mem_fields (List.mem_range.mp hindex))
    rw [joinChunks_eq hall]
    simp only [chunk]
    rw [flatMap_chunks, List.take_of_length_le (chunks_cover encoded)]
  simp only [encodedPayload, hversion, hencoding, hcountText, bind, Except.bind, ne_eq,
    not_true_eq_false, if_false, hdigits, and_self, decimalValue_threeDigits, hsize, hjoin]
  rw [if_neg (by omega)]

/-! ### Payloads -/

theorem metadataEntries_map {seen : List JsString} {es : List MetadataEntry}
    (hnodup : (es.map (fun e => e.1.val)).Nodup) (hseen : ∀ e ∈ es, e.1.val ∉ seen) :
  metadataEntries seen (es.map (fun e => .array [.string e.1.val, .string e.2.val])) =
    .ok (es.map (fun e => ⟨e.1.val, e.2.val⟩))
  := by
  induction es generalizing seen with
  | nil => rfl
  | cons e es ih =>
      rw [List.map_cons, List.nodup_cons] at hnodup
      have hnew : seen.contains e.1.val = false := by
        rw [List.contains_eq_mem, decide_eq_false_iff_not]
        exact hseen e List.mem_cons_self
      have hrest : ∀ e' ∈ es, e'.1.val ∉ e.1.val :: seen := by
        intro e' he' hmem
        obtain heq | hmem := List.mem_cons.mp hmem
        · apply hnodup.1
          rw [← heq]
          exact List.mem_map.mpr ⟨e', he', rfl⟩
        · exact hseen e' (List.mem_cons_of_mem _ he') hmem
      simp only [List.map_cons, metadataEntries, metadataPair, bind, Except.bind, hnew,
        Bool.false_eq_true, if_false, ih hnodup.2 hrest]

theorem metadata_metadataPairs (m : Metadata) :
  metadata (some (.array ((metadataPairs m).map
      (fun e => .array [.string e.1.val, .string e.2.val])))) =
    .ok m.toObject
  := by
  have hnodup : (m.entries.map (fun e => e.1.val)).Nodup := by
    have hkeys := m.toObject.nodupKeys
    rw [List.NodupKeys, List.keys, Metadata.toObject, List.map_map] at hkeys
    exact hkeys
  have hentries := metadataEntries_map hnodup (fun e _ => List.not_mem_nil)
  rw [metadataPairs_eq, metadata]
  split
  · rename_i e he
    rw [hentries] at he
    cases he
  · rename_i entries he
    rw [hentries] at he
    cases he
    rfl

theorem payloadEndpoints_map (l : List JsString) :
  payloadEndpoints (l.map Json.string) = .ok l
  := by
  induction l with
  | nil => rfl
  | cons s l ih => simp [payloadEndpoints, ih, bind, Except.bind]

/-- The document of an instance is read as the instance. -/
theorem parsePayload_payload (x : ServiceInstance urls) :
  parsePayload (payload x) = .ok x
  := by
  have hendpoints : payloadEndpoints (x.endpoints.map (fun e => .string e.val.val)) =
      .ok (x.endpoints.map (fun e => e.val.val)) := by
    rw [← payloadEndpoints_map, List.map_map]
    rfl
  have hfields : (parsePayload (payload x) : Except RegistryError (ServiceInstance urls)) = (do
      let endpoints ← payloadEndpoints (x.endpoints.map (fun e => .string e.val.val))
      let metadata ← metadata (some (.array ((metadataPairs x.metadata).map
        (fun e => .array [.string e.1.val, .string e.2.val]))))
      snapshotServiceInstance urls ⟨x.id.val, x.name.val, x.version.val, metadata, endpoints⟩) :=
    rfl
  rw [hfields, hendpoints, metadata_metadataPairs]
  exact snapshotServiceInstance_toInput x

/-! ### The text of fields -/

theorem ascii_base32Symbol (bits : ℕ) :
  (base32Symbol bits).toNat < 128
  := by
  have hall : ∀ i : Fin 32, (base32Alphabet.getD i.val 97).toNat < 128 := by decide
  have hlt : bits &&& 31 < 32 := Nat.and_lt_two_pow bits (n := 5) (by decide)
  exact hall ⟨bits &&& 31, hlt⟩

theorem ascii_base32Groups (buffer bits : ℕ) :
  ∀ u ∈ (base32Groups buffer bits).1, u.toNat < 128
  := by
  induction bits using Nat.strong_induction_on with
  | _ bits ih =>
      rw [base32Groups]
      split
      · intro u hu
        obtain rfl | hu := List.mem_cons.mp hu
        · apply ascii_base32Symbol
        · exact ih (bits - 5) (by omega) u hu
      · intro u hu
        cases hu

theorem ascii_base32Units (bytes : List UInt8) :
  ∀ buffer bits, ∀ u ∈ base32Units buffer bits bytes, u.toNat < 128
  := by
  induction bytes with
  | nil =>
      intro buffer bits u hu
      rw [base32Units, List.mem_singleton] at hu
      rw [hu]
      apply ascii_base32Symbol
  | cons byte bytes ih =>
      intro buffer bits u hu
      obtain hu | hu := List.mem_append.mp hu
      · exact ascii_base32Groups _ _ u hu
      · exact ih _ _ u hu

theorem isText_base32 (bytes : List UInt8) :
  IsText (base32 bytes).units
  := by
  apply isText_ascii
  intro u hu
  exact ascii_base32Units bytes 0 0 u (List.mem_of_mem_take hu)

theorem ascii_base64url (bytes : List UInt8) :
  ∀ u ∈ (base64url bytes).units, u.toNat < 128
  := by
  have hall : base64Alphabet.all (fun u => u.toNat < 128) = true := by decide
  rw [List.all_eq_true] at hall
  intro u hu
  exact decide_eq_true_eq.mp (hall u (base64urlUnits_mem bytes u hu))

theorem isText_threeDigits (n : ℕ) :
  IsText (threeDigits n).units
  := by
  apply isText_ascii
  intro u hu
  have hdigit := isDigit_threeDigits n u hu
  simp only [isDigit, Bool.and_eq_true, decide_eq_true_eq] at hdigit
  omega

/-- The fields of an instance are texts. -/
theorem isText_fields (host : PayloadHost urls) (x : ServiceInstance urls)
    (hencoded : ∀ u ∈ encoded.units, u.toNat < 128) :
  ∀ field ∈ fields host x encoded, IsKey field.1 ∧ IsText field.2.units
  := by
  intro field hfield
  have hkey : IsKey field.1 := by
    have hmem : field.1 ∈ (fields host x encoded).map Prod.fst := List.mem_map_of_mem hfield
    rw [keys_fields] at hmem
    obtain hfixed | hchunk := List.mem_append.mp hmem
    · exact isKey_fixedKeys _ hfixed
    · obtain ⟨index, -, hindex⟩ := List.mem_map.mp hchunk
      rw [← hindex]
      exact isKey_chunkKey index
  refine ⟨hkey, ?_⟩
  obtain hfield | hfield := List.mem_append.mp hfield
  · simp only [List.mem_cons, List.not_mem_nil, or_false] at hfield
    obtain rfl | rfl | rfl | rfl := hfield
    · exact isText_ofString _
    · exact isText_ofString _
    · exact (isText_ofString "lc-").append (isText_base32 _)
    · exact isText_threeDigits _
  · obtain ⟨index, -, rfl⟩ := List.mem_map.mp hfield
    apply isText_ascii
    intro u hu
    exact hencoded u (List.mem_of_mem_drop (List.mem_of_mem_take hu))

theorem txtMap_fields (host : PayloadHost urls) (x : ServiceInstance urls) (bytes : List UInt8) :
  txtMap [] ((fields host x (base64url bytes)).map (fun field => txt field.1 field.2)) =
    .ok (fields host x (base64url bytes))
  := txtMap_txt (isText_fields host x (ascii_base64url bytes)) (nodup_fields host x _)

/-! ### Decoding -/

/-- The bytes of the payload that items carry. -/
def payloadOf (host : PayloadHost urls) (items : List (List UInt8)) (maximumDecodedBytes : ℕ) :
    Except RegistryError (List UInt8) := do
  let values ← txtMap [] items
  carriedPayload host values maximumDecodedBytes

/-- The items that carry bytes for an instance. -/
def itemsOf (host : PayloadHost urls) (x : ServiceInstance urls) (bytes : List UInt8) :
    List (List UInt8) :=
  (fields host x (base64url (host.deflate bytes))).map (fun field => txt field.1 field.2)

variable {bytes : List UInt8} {maximumDecodedBytes : ℕ}

theorem carriedPayload_fields (host : PayloadHost urls) (x : ServiceInstance urls)
    (hdeflate : (host.deflate bytes).length ≤ 65536) (hbytes : bytes.length ≤ maximumDecodedBytes) :
  carriedPayload host (fields host x (base64url (host.deflate bytes))) maximumDecodedBytes =
    .ok bytes
  := by
  have hpos : 0 < (host.deflate bytes).length := List.length_pos_iff.mpr (host.deflate_ne_nil bytes)
  have hlength : (base64url (host.deflate bytes)).units.length =
      (4 * (host.deflate bytes).length + 2) / 3 := length_base64urlUnits _
  have hne : (base64url (host.deflate bytes)).units ≠ [] := by
    rw [← List.length_pos_iff, hlength]
    omega
  rw [carriedPayload, encodedPayload_fields host x hne (by omega)]
  simp only [bind, Except.bind, unbase64url_base64url, decompress, host.inflate_deflate bytes hdeflate]
  rw [if_neg (by omega)]

theorem payloadOf_itemsOf (host : PayloadHost urls) (x : ServiceInstance urls)
    (hdeflate : (host.deflate bytes).length ≤ 65536) (hbytes : bytes.length ≤ maximumDecodedBytes) :
  payloadOf host (itemsOf host x bytes) maximumDecodedBytes = .ok bytes
  := by
  simp only [payloadOf, itemsOf, txtMap_fields, bind, Except.bind]
  exact carriedPayload_fields host x hdeflate hbytes

/-- Items are decoded when the bytes that they carry are decoded to the canonical text. -/
theorem decodeInstanceTXT_itemsOf (host : PayloadHost urls) (x : ServiceInstance urls)
    (hdeflate : (host.deflate bytes).length ≤ 65536) (hbytes : bytes.length ≤ maximumDecodedBytes)
    (htext : decodeUtf8 bytes = some (canonicalText x)) :
  decodeInstanceTXT host (itemsOf host x bytes) maximumDecodedBytes = .ok x
  := by
  have hhash : required (fields host x (base64url (host.deflate bytes))) contentHashKey =
      .ok (instanceContentHash host x) :=
    required_of_mem (nodup_fields host x _) (by simp [fields])
  simp only [decodeInstanceTXT, decodeItems, itemsOf, txtMap_fields, bind, Except.bind,
    carriedPayload_fields host x hdeflate hbytes, readPayload, htext, host.parse_canonicalText,
    parsePayload_payload, hhash, ne_eq, not_true_eq_false, if_false, Except.mapError]

theorem encodeInstanceTXT_eq_ok {value : ServiceInstanceInput} {items : List (List UInt8)}
    (h : encodeInstanceTXT host value maximumDecodedBytes = .ok items) :
  ∃ x, snapshotServiceInstance urls value = .ok x ∧
    (canonicalBytes x).length ≤ maximumDecodedBytes ∧
    (host.deflate (canonicalBytes x)).length ≤ 65536 ∧
    items = itemsOf host x (canonicalBytes x)
  := by
  simp only [encodeInstanceTXT, bind_eq_ok] at h
  obtain ⟨x, hx, h⟩ := h
  split at h
  · cases h
  · rename_i hceiling
    simp only [bind_eq_ok, compress] at h
    obtain ⟨compressed, hcompressed, h⟩ := h
    split at hcompressed
    · cases hcompressed
    · rename_i hdeflate
      cases hcompressed
      cases h
      exact ⟨x, hx, not_lt.mp hceiling, not_lt.mp hdeflate, rfl⟩

theorem decodeInstanceTXT_eq_ok {items : List (List UInt8)} {x : ServiceInstance urls}
    (h : decodeInstanceTXT host items maximumDecodedBytes = .ok x) :
  ∃ decoded, payloadOf host items maximumDecodedBytes = .ok decoded ∧
    decodeUtf8 decoded = some (canonicalText x)
  := by
  have hitems : decodeItems host items maximumDecodedBytes = .ok x := by
    rw [decodeInstanceTXT] at h
    cases hitems : decodeItems host items maximumDecodedBytes with
    | error e =>
        rw [hitems] at h
        cases h
    | ok y =>
        rw [hitems] at h
        exact h
  simp only [decodeItems, bind_eq_ok] at hitems
  obtain ⟨values, hvalues, decoded, hdecoded, hread⟩ := hitems
  have hpayload : payloadOf host items maximumDecodedBytes = .ok decoded := by
    simp only [payloadOf, bind_eq_ok]
    exact ⟨values, hvalues, hdecoded⟩
  refine ⟨decoded, hpayload, ?_⟩
  rw [readPayload] at hread
  split at hread
  · cases hread
  · rename_i json hjson
    rw [hjson]
    split at hread
    · cases hread
    · simp only [bind_eq_ok] at hread
      obtain ⟨y, -, hread⟩ := hread
      split at hread
      · cases hread
      · rename_i hcanonical
        simp only [bind_eq_ok] at hread
        obtain ⟨contentHash, -, hread⟩ := hread
        split at hread
        · cases hread
        · cases hread
          rw [not_not.mp hcanonical]

/-- What is encoded is decoded to the snapshot of the instance; what is decoded carries the
canonical payload exactly when it does not begin with a byte order mark; and instances with
the same items are those with the same snapshot. -/
theorem instanceTXT_canonical (host : PayloadHost urls) :
  (∀ value maximumDecodedBytes items,
    encodeInstanceTXT host value maximumDecodedBytes = .ok items →
    ∃ x, snapshotServiceInstance urls value = .ok x ∧
      decodeInstanceTXT host items maximumDecodedBytes = .ok x) ∧
  (∀ items maximumDecodedBytes x, decodeInstanceTXT host items maximumDecodedBytes = .ok x →
    ∃ decoded, payloadOf host items maximumDecodedBytes = .ok decoded ∧
      (decoded = canonicalBytes x ↔ ¬ Marked decoded)) ∧
  (∀ value value' maximumDecodedBytes maximumDecodedBytes' items items',
    encodeInstanceTXT host value maximumDecodedBytes = .ok items →
    encodeInstanceTXT host value' maximumDecodedBytes' = .ok items' →
    (items = items' ↔ snapshotServiceInstance urls value = snapshotServiceInstance urls value'))
  := by
  refine ⟨?_, ?_, ?_⟩
  · intro value maximumDecodedBytes items hencode
    obtain ⟨x, hx, hceiling, hdeflate, rfl⟩ := encodeInstanceTXT_eq_ok hencode
    exact ⟨x, hx, decodeInstanceTXT_itemsOf host x hdeflate hceiling (decodeUtf8_canonicalBytes x)⟩
  · intro items maximumDecodedBytes x hdecode
    obtain ⟨decoded, hpayload, htext⟩ := decodeInstanceTXT_eq_ok hdecode
    exact ⟨decoded, hpayload, eq_encodeUtf8_iff htext⟩
  · intro value value' maximumDecodedBytes maximumDecodedBytes' items items' hencode hencode'
    obtain ⟨x, hx, hceiling, hdeflate, rfl⟩ := encodeInstanceTXT_eq_ok hencode
    obtain ⟨y, hy, hceiling', hdeflate', rfl⟩ := encodeInstanceTXT_eq_ok hencode'
    rw [hx, hy]
    constructor
    · intro heq
      have hdecode := decodeInstanceTXT_itemsOf host x hdeflate le_rfl (decodeUtf8_canonicalBytes x)
      have hcarried := payloadOf_itemsOf host y hdeflate' (Nat.le_refl _)
      have hceilings : (canonicalBytes x).length ≤
          max (canonicalBytes x).length (canonicalBytes y).length := le_max_left _ _
      have hceilings' : (canonicalBytes y).length ≤
          max (canonicalBytes x).length (canonicalBytes y).length := le_max_right _ _
      have hpayload := payloadOf_itemsOf host x hdeflate hceilings
      rw [heq, payloadOf_itemsOf host y hdeflate' hceilings'] at hpayload
      rw [canonicalBytes_injective (Except.ok.inj hpayload).symm]
    · intro heq
      cases heq
      rfl

/-! ### A payload with a byte order mark -/

/-- The checksum of a stored stream. -/
def adler32 (bytes : List UInt8) : ℕ × ℕ :=
  bytes.foldl
    (fun sums byte =>
      ((sums.1 + byte.toNat) % 65521, (sums.2 + (sums.1 + byte.toNat) % 65521) % 65521))
    (1, 0)

def checksum (bytes : List UInt8) : List UInt8 :=
  let sums := adler32 bytes
  [UInt8.ofNat (sums.2 / 256), UInt8.ofNat (sums.2 % 256), UInt8.ofNat (sums.1 / 256),
    UInt8.ofNat (sums.1 % 256)]

/-- The beginning of a stream that consists of one stored block. -/
def storedHeader (length : ℕ) : List UInt8 :=
  [0x78, 0x01, 0x01, UInt8.ofNat (length % 256), UInt8.ofNat (length / 256),
    UInt8.ofNat (255 - length % 256), UInt8.ofNat (255 - length / 256)]

/-- A stream that consists of one stored block. -/
def storedDeflate (bytes : List UInt8) : List UInt8 :=
  storedHeader bytes.length ++ bytes ++ checksum bytes

/-- Read a stream that consists of one stored block. -/
def storedInflate (stream : List UInt8) : Option (List UInt8) :=
  let bytes := (stream.drop 7).take (stream.length - 11)
  if bytes.length < 65536 ∧ stream = storedDeflate bytes then some bytes else none

theorem length_storedDeflate (bytes : List UInt8) :
  (storedDeflate bytes).length = bytes.length + 11
  := by simp [storedDeflate, storedHeader, checksum]

theorem storedInflate_storedDeflate (h : bytes.length < 65536) :
  storedInflate (storedDeflate bytes) = some bytes
  := by
  have hbytes : ((storedDeflate bytes).drop 7).take ((storedDeflate bytes).length - 11) = bytes := by
    have hlength : (storedDeflate bytes).length - 11 = bytes.length := by
      rw [length_storedDeflate, Nat.add_sub_cancel]
    have hdrop : (storedDeflate bytes).drop 7 = bytes ++ checksum bytes := rfl
    rw [hlength, hdrop, List.take_left]
  rw [storedInflate, hbytes, if_pos ⟨h, rfl⟩]

variable (urls) in
open Classical in
/-- A parser of canonical texts. -/
noncomputable def canonicalParse (text : JsString) : Option Json :=
  if h : ∃ x : ServiceInstance urls, canonicalText x = text then some (payload h.choose) else none

theorem canonicalParse_canonicalText (x : ServiceInstance urls) :
  canonicalParse urls (canonicalText x) = some (payload x)
  := by
  have h : ∃ y : ServiceInstance urls, canonicalText y = canonicalText x := ⟨x, rfl⟩
  rw [canonicalParse, dif_pos h, canonicalText_injective h.choose_spec]

/-- A host that stores what it deflates, with any digest. -/
noncomputable def storedHost (digest : List UInt8 → List UInt8) : PayloadHost noUrls where
  deflate := storedDeflate
  inflate := storedInflate
  digest := digest
  parse := canonicalParse noUrls
  inflate_deflate := by
    intro bytes h
    rw [length_storedDeflate] at h
    exact storedInflate_storedDeflate (by omega)
  deflate_ne_nil := by
    rintro bytes ⟨⟩
  parse_canonicalText := canonicalParse_canonicalText

/-- The canonical payload after a byte order mark. -/
def markedPayload (x : ServiceInstance urls) : List UInt8 :=
  String.utf8EncodeChar byteOrderMark ++ canonicalBytes x

theorem decodeUtf8_markedPayload (x : ServiceInstance urls) :
  decodeUtf8 (markedPayload x) = some (canonicalText x)
  := by
  obtain ⟨cs, hcs⟩ := isText_canonicalUnits x
  have htext : canonicalText x = ofChars cs := congrArg JsString.mk hcs
  have hbytes : markedPayload x = (byteOrderMark :: cs).flatMap String.utf8EncodeChar := by
    rw [markedPayload, canonicalBytes, htext, encodeUtf8, chars_ofChars, List.flatMap_cons]
  rw [hbytes, decodeUtf8, utf8Encode_chars, htext]
  rfl

/-- Whatever the digest, the payload of an instance is accepted after a byte order mark. -/
theorem markedPayload_accepted :
  markedPayload bareInstance ≠ canonicalBytes bareInstance ∧
    ∀ digest, ∃ items, decodeInstanceTXT (storedHost digest) items 1024 = .ok bareInstance ∧
      payloadOf (storedHost digest) items 1024 = .ok (markedPayload bareInstance)
  := by
  have hlength : (markedPayload bareInstance).length ≤ 1024 := by decide
  constructor
  · intro heq
    have hmarked : Marked (markedPayload bareInstance) := List.prefix_append _ _
    exact (eq_encodeUtf8_iff (decodeUtf8_markedPayload bareInstance)).mp heq hmarked
  · intro digest
    have hdeflate : ((storedHost digest).deflate (markedPayload bareInstance)).length ≤ 65536 := by
      have h := length_storedDeflate (markedPayload bareInstance)
      change (storedDeflate (markedPayload bareInstance)).length ≤ 65536
      omega
    use itemsOf (storedHost digest) bareInstance (markedPayload bareInstance)
    constructor
    · exact decodeInstanceTXT_itemsOf _ _ hdeflate hlength (decodeUtf8_markedPayload bareInstance)
    · exact payloadOf_itemsOf _ _ hdeflate hlength

end Registry.Mdns
