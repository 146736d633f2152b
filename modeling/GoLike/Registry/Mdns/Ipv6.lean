import GoLike.Lib.Ascii
import GoLike.Lib.JsSplit
import GoLike.Registry.Instance

/-!
# Addresses in DNS records

An IPv4 literal is four octets in decimal. An IPv6 literal is split at `::` and then at colons; a
dotted IPv4 address at its end is replaced by two placeholder groups first. An IPv6 address is
printed with its longest run of zero groups left out.
-/

open JsString

namespace Registry.Mdns

/-! ### IPv4 -/

/-- The error for what is not an IPv4 literal. -/
def ipv4Error : RegistryError := .typeError "DNS A data must be an IPv4 literal"

/-- Read an octet: a decimal number of at most three digits, without leading zeros. -/
def ipv4Octet (part : JsString) : Except RegistryError UInt8 :=
  if ¬ (part.isDecimal = true ∧ part.units.length ≤ 3) then .error ipv4Error
  else if part.decimalValue > 255 then .error ipv4Error
  else .ok (UInt8.ofNat part.decimalValue)

/-- Read the four octets of an IPv4 literal. -/
def encodeIPv4 (value : JsString) : Except RegistryError (List UInt8) :=
  let parts := value.split (ofString ".")
  if parts.length ≠ 4 then .error ipv4Error else parts.mapM ipv4Octet

/-- The text of octets. -/
def dottedText (octets : List UInt8) : JsString :=
  joinWith (ofString ".") (octets.map (fun o => ofNat o.toNat))

/-! ### IPv6 literals -/

/-- The error for what is not an IPv6 literal. -/
def ipv6Error : RegistryError := .typeError "DNS AAAA data must be an IPv6 literal"

/-- The words of pairs of bytes. -/
def wordsOf : List UInt8 → List ℕ
  | high :: low :: bytes => (high.toNat <<< 8 ||| low.toNat) :: wordsOf bytes
  | [byte] => [byte.toNat]
  | [] => []

def colon : UInt16 := 58

def dot : UInt16 := 46

/-- The last index of a unit. -/
def lastIndexOf (s : JsString) (u : UInt16) : Option ℕ :=
  if u ∈ s.units then some (s.units.length - 1 - s.units.reverse.idxOf u) else none

/-- Brackets around a literal are removed. -/
def unbracket (s : JsString) : JsString :=
  if s.units.head? = some 91 ∧ s.units.getLast? = some 93 then ⟨s.units.tail.dropLast⟩ else s

/-- The words of a dotted address at the end, for which two placeholders are put. -/
def embedIPv4 (normalized : JsString) : Except RegistryError (JsString × List ℕ) :=
  let lastColon := lastIndexOf normalized colon
  let tail := normalized.slice (lastColon.elim 0 (· + 1))
  if dot ∈ tail.units then do
    let bytes ← encodeIPv4 tail
    -- a text without a colon is cut before its last unit
    let kept : JsString := ⟨normalized.units.take (lastColon.getD (normalized.units.length - 1))⟩
    .ok (kept ++ ofString ":ipv4:tail", wordsOf bytes)
  else .ok (normalized, [])

def isHexUnit (u : UInt16) : Bool := (48 ≤ u && u ≤ 57) || (97 ≤ u && u ≤ 102)

def hexDigit (u : UInt16) : ℕ := if u ≤ 57 then u.toNat - 48 else u.toNat - 87

/-- The number that hexadecimal digits stand for. -/
def hexValue (part : JsString) : ℕ := part.units.foldl (fun value u => value * 16 + hexDigit u) 0

/-- The words of the groups of a half. -/
def groupWords (ipv4 : List ℕ) : List JsString → Except RegistryError (List ℕ)
  | [] => .ok []
  | part :: parts =>
      if part = ofString "ipv4" then do
        let words ← groupWords ipv4 parts
        .ok (ipv4 ++ words)
      else if part = ofString "tail" then groupWords ipv4 parts
      else if ¬ (part.units.all isHexUnit = true ∧ 1 ≤ part.units.length ∧ part.units.length ≤ 4) then
        .error ipv6Error
      else do
        let words ← groupWords ipv4 parts
        .ok (hexValue part :: words)

/-- The words of a half, which may be empty. -/
def half (ipv4 : List ℕ) (valuePart : JsString) : Except RegistryError (List ℕ) :=
  if valuePart.isEmpty then .ok [] else groupWords ipv4 (valuePart.split (ofString ":"))

/-- The words of halves, with zeros for the groups that are missing. -/
def joinHalves (ipv4 : List ℕ) (halves : List JsString) : Except RegistryError (List ℕ) :=
  if halves.length > 2 then .error ipv6Error
  else do
    let left ← half ipv4 (halves.head?.getD .empty)
    let right ← half ipv4 ((halves.drop 1).head?.getD .empty)
    let explicit := left.length + right.length
    if (halves.length = 1 ∧ explicit ≠ 8) ∨ (halves.length = 2 ∧ explicit ≥ 8) then .error ipv6Error
    else .ok (left ++ List.replicate (8 - explicit) 0 ++ right)

/-- The eight words of an IPv6 literal. -/
def ipv6Words (lower : LowerCase) (value : JsString) : Except RegistryError (List ℕ) :=
  if value.isEmpty ∨ 37 ∈ value.units then .error ipv6Error
  else do
    let embedded ← embedIPv4 (unbracket (lower.toLowerCase value))
    joinHalves embedded.2 (embedded.1.split (ofString "::"))

/-- The sixteen bytes of an IPv6 literal. -/
def encodeIPv6 (lower : LowerCase) (value : JsString) : Except RegistryError (List UInt8) := do
  let words ← ipv6Words lower value
  .ok (words.flatMap (fun word => [UInt8.ofNat (word >>> 8), UInt8.ofNat (word &&& 255)]))

/-! ### Printing an IPv6 address -/

/-- The end of the run of zeros at an index. -/
def zeroEnd (words : List ℕ) (start : ℕ) : ℕ :=
  if start < words.length ∧ words[start]? = some 0 then zeroEnd words (start + 1) else start
termination_by words.length - start

theorem le_zeroEnd (words : List ℕ) (start : ℕ) :
  start ≤ zeroEnd words start
  := by
  fun_induction zeroEnd words start with
  | case1 start h ih => omega
  | case2 start h => exact le_rfl

theorem lt_zeroEnd {words : List ℕ} {start : ℕ} (h : start < words.length ∧ words[start]? = some 0) :
  start < zeroEnd words start
  := by
  rw [zeroEnd, if_pos h]
  exact le_zeroEnd words (start + 1)

/-- The first of the longest runs of at least two zeros from an index on, if it is longer than the
best one before. -/
def longestRun (words : List ℕ) (start bestStart bestLength : ℕ) : ℕ × ℕ :=
  if h : start < words.length then
    if hzero : words[start]? = some 0 then
      let end_ := zeroEnd words start
      have := lt_zeroEnd ⟨h, hzero⟩
      if end_ - start > bestLength ∧ end_ - start ≥ 2 then
        longestRun words end_ start (end_ - start)
      else longestRun words end_ bestStart bestLength
    else longestRun words (start + 1) bestStart bestLength
  else (bestStart, bestLength)
termination_by words.length - start

/-- The unit of a hexadecimal digit. -/
def hexUnitOf (d : ℕ) : UInt16 := UInt16.ofNat (if d < 10 then 48 + d else 87 + d)

/-- The hexadecimal digits of a number, without leading zeros. -/
def toHex (word : ℕ) : JsString :=
  if word = 0 then ⟨[48]⟩ else ⟨((Nat.digits 16 word).map hexUnitOf).reverse⟩

/-- The parts of the text of an address from an index on. -/
def textParts (words : List ℕ) (bestStart bestLength index : ℕ) : List JsString :=
  if index < words.length then
    if index = bestStart ∧ 0 < bestLength then
      .empty :: ((if index + bestLength = words.length then [.empty] else []) ++
        textParts words bestStart bestLength (index + bestLength))
    else (words[index]?.elim [] (fun word => [toHex word])) ++
      textParts words bestStart bestLength (index + 1)
  else []
termination_by words.length - index

/-- The canonical text of sixteen bytes. -/
def decodeIPv6 (data : List UInt8) : Except RegistryError JsString :=
  if data.length ≠ 16 then .error (.typeError "DNS AAAA rdata length is invalid")
  else
    let words := wordsOf data
    let best := longestRun words 0 0 0
    let joined := joinWith (ofString ":") (textParts words best.1 best.2 0)
    .ok (if joined.startsWith (ofString ":") then ofString ":" ++ joined else joined)

end Registry.Mdns
