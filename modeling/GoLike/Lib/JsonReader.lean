import GoLike.Lib.JsonWriter
import GoLike.Lib.OwnObject

/-!
# Reading JSON texts

A text is read unit by unit. The units are gathered to tokens, and every token is given at once
to a machine with a stack of the arrays and objects that are still open. The value of the digits
of a number is a parameter. A text denotes a document when the machine, waiting for a value, has
read the document after the text; the texts of strings, arrays and objects denote what they were
written of.
-/

namespace JsonReader

open JsString

/-! ### Tokens -/

/-- A token of a text. -/
inductive Token where
  | openArray
  | closeArray
  | openObject
  | closeObject
  | comma
  | colon
  | string (s : JsString)
  /-- A number, `null`, `true` or `false`. -/
  | scalar (value : Json)

/-- The unit is white space. -/
def isBlank (u : UInt16) : Bool := u = 32 || u = 9 || u = 10 || u = 13

/-- The token of a punctuation mark. -/
def punctuation? (u : UInt16) : Option Token :=
  if u = 91 then some .openArray
  else if u = 93 then some .closeArray
  else if u = 123 then some .openObject
  else if u = 125 then some .closeObject
  else if u = 44 then some .comma
  else if u = 58 then some .colon
  else none

/-- The unit that a letter stands for behind a reverse solidus. -/
def escaped? (u : UInt16) : Option UInt16 :=
  if u = 34 || u = 47 || u = 92 then some u
  else if u = 98 then some 8
  else if u = 102 then some 12
  else if u = 110 then some 10
  else if u = 114 then some 13
  else if u = 116 then some 9
  else none

/-- The unit may occur in a number. -/
def isNumberUnit (u : UInt16) : Bool :=
  isDigit u || u = 43 || u = 45 || u = 46 || u = 69 || u = 101

/-- The units are one digit or more. -/
def areDigits (us : List UInt16) : Bool := !us.isEmpty && us.all isDigit

/-- The units are an exponent, or none. -/
def isExponent : List UInt16 → Bool
  | [] => true
  | e :: us => (e = 69 || e = 101) && (areDigits us ||
      match us with
      | sign :: digits => (sign = 43 || sign = 45) && areDigits digits
      | [] => false)

/-- The units are a fraction and an exponent, or one of them, or none. -/
def isFraction : List UInt16 → Bool
  | [] => true
  | u :: us =>
      if u = 46 then areDigits (us.takeWhile isDigit) && isExponent (us.dropWhile isDigit)
      else isExponent (u :: us)

/-- The units are a number. -/
def isNumeral (us : List UInt16) : Bool :=
  let unsigned := if us.head? = some 45 then us.tail else us
  isDecimal ⟨unsigned.takeWhile isDigit⟩ && isFraction (unsigned.dropWhile isDigit)

/-- What the units that come next belong to. -/
inductive Mode where
  | between
  /-- The content of a string of which some units were read. -/
  | text (read : List UInt16)
  /-- The unit behind a reverse solidus. -/
  | escape (read : List UInt16)
  /-- The digits of a unit, after some of them. -/
  | digits (read : List UInt16) (value count : ℕ)
  /-- The rest of the name of a value. -/
  | word (rest : List UInt16) (value : Json)
  | number (read : List UInt16)

/-- The first unit of a token. -/
def begin (u : UInt16) : Option (Mode × List Token) :=
  if isBlank u then some (.between, [])
  else if u = 34 then some (.text [], [])
  else if isDigit u || u = 45 then some (.number [u], [])
  else if u = 110 then some (.word [117, 108, 108] .null, [])
  else if u = 116 then some (.word [114, 117, 101] (.bool true), [])
  else if u = 102 then some (.word [97, 108, 115, 101] (.bool false), [])
  else (punctuation? u).map fun token => (.between, [token])

variable (numberValue : List UInt16 → JsNumber)

/-- The token of a number that ends. -/
def numberToken? (read : List UInt16) : Option Token :=
  if isNumeral read then some (.scalar (.number (numberValue read))) else none

/-- One unit, with the tokens that it completes. -/
def Mode.step (u : UInt16) : Mode → Option (Mode × List Token)
  | .between => begin u
  | .text read =>
      if u = 34 then some (.between, [.string ⟨read⟩])
      else if u = 92 then some (.escape read, [])
      else if u.toNat < 32 then none
      else some (.text (read ++ [u]), [])
  | .escape read =>
      if u = 117 then some (.digits read 0 0, [])
      else (escaped? u).map fun v => (.text (read ++ [v]), [])
  | .digits read value count =>
      (hexDigit? u).map fun d =>
        if count = 3 then (.text (read ++ [UInt16.ofNat (value * 16 + d)]), [])
        else (.digits read (value * 16 + d) (count + 1), [])
  | .word [] _ => none
  | .word (v :: rest) value =>
      if u ≠ v then none
      else if rest.isEmpty then some (.between, [.scalar value])
      else some (.word rest value, [])
  | .number read =>
      if isNumberUnit u then some (.number (read ++ [u]), [])
      else (numberToken? numberValue read).bind fun token =>
        (begin u).map fun begun => (begun.1, token :: begun.2)

/-- The tokens that the end of the text completes. -/
def Mode.close : Mode → Option (List Token)
  | .between => some []
  | .number read => (numberToken? numberValue read).map fun token => [token]
  | _ => none

/-! ### The machine -/

/-- An array or an object that is open. -/
inductive Frame where
  | array (elements : List Json)
  /-- The value of the name comes next. -/
  | object (properties : List (JsString × Json)) (name : JsString)

/-- What the machine waits for. -/
inductive State where
  | value (stack : List Frame)
  /-- A name in an object with some properties. -/
  | name (properties : List (JsString × Json)) (stack : List Frame)
  | colon (name : JsString) (properties : List (JsString × Json)) (stack : List Frame)
  /-- What follows a value. -/
  | next (stack : List Frame) (value : Json)

/-- One token. A name that occurs again keeps its place and gets the later value. -/
def State.step : State → Token → Option State
  | .value stack, .scalar j => some (.next stack j)
  | .value stack, .string s => some (.next stack (.string s))
  | .value stack, .openArray => some (.value (.array [] :: stack))
  | .value stack, .openObject => some (.name [] stack)
  | .value (.array [] :: stack), .closeArray => some (.next stack (.array []))
  | .name properties stack, .string s => some (.colon s properties stack)
  | .name [] stack, .closeObject => some (.next stack (.object []))
  | .colon s properties stack, .colon => some (.value (.object properties s :: stack))
  | .next (.array elements :: stack) j, .comma =>
      some (.value (.array (elements ++ [j]) :: stack))
  | .next (.array elements :: stack) j, .closeArray =>
      some (.next stack (.array (elements ++ [j])))
  | .next (.object properties s :: stack) j, .comma =>
      some (.name (JsMap.put s j properties) stack)
  | .next (.object properties s :: stack) j, .closeObject =>
      some (.next stack (.object (OwnOrder.ownOrder (JsMap.put s j properties))))
  | _, _ => none

/-- The document, if it is complete. -/
def State.document : State → Option Json
  | .next [] j => some j
  | _ => none

/-- The units of a text, from a mode and a state on. -/
def run : Mode → State → List UInt16 → Option Json
  | mode, state, [] =>
      (mode.close numberValue).bind fun tokens =>
        (tokens.foldlM State.step state).bind State.document
  | mode, state, u :: rest =>
      (mode.step numberValue u).bind fun stepped =>
        (stepped.2.foldlM State.step state).bind fun state => run stepped.1 state rest

/-- The document of a text; `none` when it is not one of JSON. -/
def parse (s : JsString) : Option Json := run numberValue .between (.value []) s.units

/-! ### Runs -/

variable {numberValue}

theorem run_cons {mode mode' : Mode} {u : UInt16} (h : mode.step numberValue u = some (mode', []))
    (state : State) (rest : List UInt16) :
  run numberValue mode state (u :: rest) = run numberValue mode' state rest
  := by
  rw [run, h]
  rfl

theorem run_token {mode mode' : Mode} {u : UInt16} {token : Token} {state state' : State}
    (h : mode.step numberValue u = some (mode', [token])) (hstate : state.step token = some state')
    (rest : List UInt16) :
  run numberValue mode state (u :: rest) = run numberValue mode' state' rest
  := by
  rw [run, h, Option.bind_some, List.foldlM_cons, hstate]
  rfl

theorem run_unicodeEscape {p : ℕ} (h : p < 0x10000) (read : List UInt16) (state : State)
    (rest : List UInt16) :
  run numberValue (.text read) state (unicodeEscape p ++ rest) =
    run numberValue (.text (read ++ [UInt16.ofNat p])) state rest
  := by
  have hdigits : (((0 * 16 + p / 4096 % 16) * 16 + p / 256 % 16) * 16 + p / 16 % 16) * 16 + p % 16 =
      p := by
    omega
  have hstep : ∀ {d : ℕ} (value count : ℕ), d < 16 →
      (Mode.digits read value count).step numberValue (hexUnit d) =
        some (if count = 3 then (.text (read ++ [UInt16.ofNat (value * 16 + d)]), [])
          else (.digits read (value * 16 + d) (count + 1), [])) := by
    intro d value count hd
    rw [Mode.step, hexDigit?_hexUnit hd, Option.map_some]
  have hlt : ∀ n, n % 16 < 16 := fun n => Nat.mod_lt n (by decide)
  calc run numberValue (.text read) state (unicodeEscape p ++ rest)
      = run numberValue (.digits read 0 0) state (hexUnit (p / 4096 % 16) ::
          hexUnit (p / 256 % 16) :: hexUnit (p / 16 % 16) :: hexUnit (p % 16) :: rest) := rfl
    _ = run numberValue (.digits read (((0 * 16 + p / 4096 % 16) * 16 + p / 256 % 16) * 16 +
          p / 16 % 16) 3) state (hexUnit (p % 16) :: rest) := by
        rw [run_cons (hstep 0 0 (hlt _)), run_cons (hstep _ 1 (hlt _)),
          run_cons (hstep _ 2 (hlt _))]
    _ = run numberValue (.text (read ++ [UInt16.ofNat p])) state rest := by
        rw [run_cons (hstep _ 3 (hlt _)), hdigits]

/-- A unit of a string that needs no escape. -/
theorem run_unit {u : UInt16} (hquotation : u ≠ 34) (hsolidus : u ≠ 92) (hcontrol : ¬ u.toNat < 32)
    (read : List UInt16) (state : State) (rest : List UInt16) :
  run numberValue (.text read) state (u :: rest) =
    run numberValue (.text (read ++ [u])) state rest
  := by
  apply run_cons
  rw [Mode.step, if_neg hquotation, if_neg hsolidus, if_neg hcontrol]

theorem run_unitsOfPoint {p : ℕ} (hvalid : p.isValidChar) (hquotation : p ≠ 34) (hsolidus : p ≠ 92)
    (hcontrol : ¬ p < 32) (read : List UInt16) (state : State) (rest : List UInt16) :
  run numberValue (.text read) state (unitsOfPoint p ++ rest) =
    run numberValue (.text (read ++ unitsOfPoint p)) state rest
  := by
  have hunit : ∀ {u : UInt16} (read : List UInt16) (rest : List UInt16), u.toNat ≠ 34 →
      u.toNat ≠ 92 → ¬ u.toNat < 32 →
      run numberValue (.text read) state (u :: rest) =
        run numberValue (.text (read ++ [u])) state rest := by
    intro u read rest h h' hlt
    apply run_unit _ _ hlt
    · rintro rfl
      exact h rfl
    · rintro rfl
      exact h' rfl
  obtain ⟨u, hunits, htoNat, -⟩ | ⟨high, low, hunits, hhigh, hlow, -⟩ := unitsOfPoint_cases hvalid
  · rw [hunits, List.singleton_append]
    apply hunit
    · rwa [htoNat]
    · rwa [htoNat]
    · rwa [htoNat]
  · simp only [isHigh, isLow, Bool.and_eq_true, decide_eq_true_eq] at hhigh hlow
    rw [hunits, List.cons_append, List.singleton_append, hunit, hunit, List.append_assoc,
      List.singleton_append]
    all_goals omega

/-- A code point of a string is read from what it was written as. -/
theorem run_escape {p : ℕ} (h : IsPoint p) (read : List UInt16) (state : State)
    (rest : List UInt16) :
  run numberValue (.text read) state (escape p ++ rest) =
    run numberValue (.text (read ++ unitsOfPoint p)) state rest
  := by
  unfold escape
  split
  · subst p
    rfl
  split
  · subst p
    rfl
  split
  · subst p
    rfl
  split
  · subst p
    rfl
  split
  · subst p
    rfl
  split
  · subst p
    rfl
  split
  · subst p
    rfl
  split
  · have hsmall : p ≤ 0xFFFF := by omega
    rw [run_unicodeEscape (by omega), unitsOfPoint, if_pos hsmall]
  · apply run_unitsOfPoint
    · unfold IsPoint at h
      simp only [Nat.isValidChar]
      omega
    · assumption
    · assumption
    · omega

theorem run_points {ps : List ℕ} (h : ∀ p ∈ ps, IsPoint p) (read : List UInt16) (state : State)
    (rest : List UInt16) :
  run numberValue (.text read) state (ps.flatMap escape ++ rest) =
    run numberValue (.text (read ++ ps.flatMap unitsOfPoint)) state rest
  := by
  induction ps generalizing read with
  | nil => rw [List.flatMap_nil, List.flatMap_nil, List.nil_append, List.append_nil]
  | cons p ps ih =>
      rw [List.flatMap_cons, List.flatMap_cons, List.append_assoc,
        run_escape (h p List.mem_cons_self), ih (fun q hq => h q (List.mem_cons_of_mem _ hq)),
        List.append_assoc]

/-- A string is read as one token. -/
theorem run_quote {s : JsString} {state state' : State} (h : state.step (.string s) = some state')
    (rest : List UInt16) :
  run numberValue .between state (quote s ++ rest) = run numberValue .between state' rest
  := by
  have hopen : Mode.between.step numberValue 34 = some (.text [], []) := rfl
  have hclose : (Mode.text s.units).step numberValue 34 = some (.between, [.string s]) := rfl
  rw [quote, codePoints, List.append_assoc, List.cons_append, run_cons hopen,
    run_points isPoint_of_mem, List.nil_append, List.singleton_append, flatMap_pointsOf,
    run_token hclose h]

/-! ### Texts -/

variable (numberValue)

/-- The units are a text of the document, whatever follows them. -/
def Denotes (us : List UInt16) (j : Json) : Prop :=
  ∀ stack rest, run numberValue .between (.value stack) (us ++ rest) =
    run numberValue .between (.next stack j) rest

variable {numberValue}

theorem parse_of_denotes {s : JsString} {j : Json} (h : Denotes numberValue s.units j) :
  parse numberValue s = some j
  := by
  rw [parse, ← List.append_nil s.units, h [] []]
  rfl

theorem denotes_quote (s : JsString) :
  Denotes numberValue (quote s) (.string s)
  := fun _ rest => run_quote rfl rest

section Sequences

variable {α : Type} {code : α → List UInt16} {value : α → Json}

theorem run_elements {l : List α} (h : ∀ a ∈ l, Denotes numberValue (code a) (value a))
    (elements : List Json) (j : Json) (stack : List Frame) (rest : List UInt16) :
  run numberValue .between (.next (.array elements :: stack) j)
      ((l.map code).flatMap (fun element => 44 :: element) ++ 93 :: rest) =
    run numberValue .between (.next stack (.array (elements ++ j :: l.map value))) rest
  := by
  induction l generalizing elements j with
  | nil => rfl
  | cons a l ih =>
      have hcomma : ∀ us, run numberValue .between (.next (.array elements :: stack) j) (44 :: us) =
          run numberValue .between (.value (.array (elements ++ [j]) :: stack)) us :=
        run_token rfl rfl
      rw [List.map_cons, List.flatMap_cons, List.append_assoc, List.cons_append, hcomma,
        h a List.mem_cons_self, ih (fun b hb => h b (List.mem_cons_of_mem _ hb)),
        List.append_assoc]
      rfl

/-- The text of an array. -/
theorem denotes_brackets {l : List α} (h : ∀ a ∈ l, Denotes numberValue (code a) (value a)) :
  Denotes numberValue (brackets (l.map code)) (.array (l.map value))
  := by
  intro stack rest
  have hopen : ∀ us, run numberValue .between (.value stack) (91 :: us) =
      run numberValue .between (.value (.array [] :: stack)) us := run_token rfl rfl
  cases l with
  | nil => rfl
  | cons a l =>
      have hrest : ∀ b ∈ l, Denotes numberValue (code b) (value b) :=
        fun b hb => h b (List.mem_cons_of_mem _ hb)
      simp only [List.map_cons, brackets, List.cons_append, List.append_assoc, List.nil_append]
      rw [hopen, h a List.mem_cons_self, run_elements hrest]
      rfl

variable {name : α → JsString}

/-- The units of a property. -/
def property (name : JsString) (value : List UInt16) : List UInt16 := quote name ++ 58 :: value

theorem run_property {us : List UInt16} {j : Json} (h : Denotes numberValue us j)
    (properties : List (JsString × Json)) (name : JsString) (stack : List Frame)
    (rest : List UInt16) :
  run numberValue .between (.name properties stack) (property name us ++ rest) =
    run numberValue .between (.next (.object properties name :: stack) j) rest
  := by
  have hcolon : ∀ us, run numberValue .between (.colon name properties stack) (58 :: us) =
      run numberValue .between (.value (.object properties name :: stack)) us := run_token rfl rfl
  rw [property, List.append_assoc, List.cons_append, run_quote rfl, hcolon, h]

theorem run_properties {l : List α} (h : ∀ a ∈ l, Denotes numberValue (code a) (value a))
    (properties : List (JsString × Json)) (first : JsString) (j : Json) (stack : List Frame)
    (rest : List UInt16)
    (hnodup : (properties.map Prod.fst ++ first :: l.map name).Nodup) :
  run numberValue .between (.next (.object properties first :: stack) j)
      ((l.map fun a => property (name a) (code a)).flatMap (fun element => 44 :: element) ++
        125 :: rest) =
    run numberValue .between (.next stack (.object (OwnOrder.ownOrder
      (properties ++ (first, j) :: l.map fun a => (name a, value a))))) rest
  := by
  have hfirst : first ∉ properties.map Prod.fst := by
    intro hmem
    exact (List.nodup_append'.1 hnodup).2.2 hmem List.mem_cons_self
  have hput : JsMap.put first j properties = properties ++ [(first, j)] :=
    OwnOrder.put_of_notMem hfirst j
  induction l generalizing properties first j with
  | nil =>
      have hclose : ∀ us, run numberValue .between (.next (.object properties first :: stack) j)
          (125 :: us) = run numberValue .between (.next stack (.object (OwnOrder.ownOrder
            (JsMap.put first j properties)))) us := run_token rfl rfl
      rw [List.map_nil, List.flatMap_nil, List.nil_append, hclose, hput]
      rfl
  | cons a l ih =>
      have hnames : ((properties ++ [(first, j)]).map Prod.fst ++ name a :: l.map name).Nodup := by
        rw [List.map_append, List.append_assoc]
        exact hnodup
      have hnext : name a ∉ (properties ++ [(first, j)]).map Prod.fst := by
        intro hmem
        exact (List.nodup_append'.1 hnames).2.2 hmem List.mem_cons_self
      have hcomma : ∀ us, run numberValue .between (.next (.object properties first :: stack) j)
          (44 :: us) = run numberValue .between (.name (JsMap.put first j properties) stack) us :=
        run_token rfl rfl
      rw [List.map_cons, List.flatMap_cons, List.append_assoc, List.cons_append, hcomma, hput,
        run_property (h a List.mem_cons_self),
        ih (fun b hb => h b (List.mem_cons_of_mem _ hb)) _ _ _ hnames hnext
          (OwnOrder.put_of_notMem hnext _), List.append_assoc]
      rfl

/-- The text of an object with distinct names. -/
theorem denotes_braces {l : List α} (h : ∀ a ∈ l, Denotes numberValue (code a) (value a))
    (hnodup : (l.map name).Nodup) :
  Denotes numberValue (braces (l.map fun a => property (name a) (code a)))
    (.object (OwnOrder.ownOrder (l.map fun a => (name a, value a))))
  := by
  intro stack rest
  have hopen : ∀ us, run numberValue .between (.value stack) (123 :: us) =
      run numberValue .between (.name [] stack) us := run_token rfl rfl
  cases l with
  | nil => rfl
  | cons a l =>
      have hrest : ∀ b ∈ l, Denotes numberValue (code b) (value b) :=
        fun b hb => h b (List.mem_cons_of_mem _ hb)
      simp only [List.map_cons, braces, enclosed, List.cons_append, List.append_assoc,
        List.nil_append]
      rw [hopen, run_property (h a List.mem_cons_self), run_properties hrest [] _ _ _ _ hnodup]
      rfl

end Sequences

end JsonReader
