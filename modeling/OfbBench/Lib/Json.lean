import OfbBench.Lib.Format

/-!
# JSON texts

A decoder of JSON with the values of Python's `json.loads` (`loads`): a number with a fraction or an
exponent is a `float`, any other an `int`; floats are exact here. The members of an object are kept
as they stand in the text. The interpreter's limit on the nesting of values is left out.

The decoder inverts what programs print by hand: an object of strings without escapes, natural
numbers and fixed-point numbers (`loads_objectChars`).
-/

namespace OfbBench

/-- A string of Python. One in which a surrogate stands alone is the list of its code points. -/
inductive PyString
  | text (text : String)
  | codes (codes : List ℕ)
  deriving DecidableEq

instance : Coe String PyString := ⟨.text⟩

inductive Json
  | null
  | bool (value : Bool)
  | int (value : ℤ)
  | float (value : ℚ)
  /-- `NaN`, `Infinity` and `-Infinity`, which the decoder accepts. -/
  | nonFinite (text : String)
  | str (text : PyString)
  | array (values : List Json)
  | object (members : List (PyString × Json))

namespace Json

/-- Why a text is not decoded: it is no JSON, or it has an integer of more digits than `int`
takes. -/
inductive Refusal
  | notJson
  | tooManyDigits (digits : ℕ)
  deriving DecidableEq, Repr

/-- `sys.get_int_max_str_digits()`. -/
def maxDigits : ℕ := 4300

/-- The message of the `ValueError` that `int` raises for so many digits. -/
def tooManyDigitsMessage (digits : ℕ) : String :=
  "Exceeds the limit (" ++ toString maxDigits
    ++ " digits) for integer string conversion: value has " ++ toString digits
    ++ " digits; use sys.set_int_max_str_digits() to increase the limit"

/-! ## The decoder

Each function returns what it has read and the text after it. -/

def orNotJson {α : Type} : Option α → Except Refusal α
  | some read => .ok read
  | none => .error .notJson

def isSpace (c : Char) : Bool := c = ' ' ∨ c = '\t' ∨ c = '\n' ∨ c = '\r'

def skipSpace (text : List Char) : List Char := text.dropWhile isSpace

def hexDigit (c : Char) : Option ℕ :=
  if c.isDigit then some (c.toNat - '0'.toNat)
  else if 'a' ≤ c ∧ c ≤ 'f' then some (c.toNat - 'a'.toNat + 10)
  else if 'A' ≤ c ∧ c ≤ 'F' then some (c.toNat - 'A'.toNat + 10)
  else none

def hex4 : List Char → Option (ℕ × List Char)
  | a :: b :: c :: d :: rest => do
    let a ← hexDigit a
    let b ← hexDigit b
    let c ← hexDigit c
    let d ← hexDigit d
    pure (((a * 16 + b) * 16 + c) * 16 + d, rest)
  | _ => none

/-- The code point of one `\u` escape or of two that form a surrogate pair. Any other surrogate
stands alone, and a `\u` escape after it is read for itself. -/
def unicodeEscape (text : List Char) : Option (ℕ × List Char) := do
  let (unit, rest) ← hex4 text
  if 0xd800 ≤ unit ∧ unit < 0xdc00 then
    match rest with
    | '\\' :: 'u' :: next => do
      let (low, after) ← hex4 next
      if 0xdc00 ≤ low ∧ low < 0xe000 then
        pure (0x10000 + (unit - 0xd800) * 0x400 + (low - 0xdc00), after)
      else pure (unit, rest)
    | _ => pure (unit, rest)
  else pure (unit, rest)

/-- The code point of an escape, after its backslash. -/
def escape : List Char → Option (ℕ × List Char)
  | [] => none
  | c :: rest =>
    if c = '"' ∨ c = '\\' ∨ c = '/' then some (c.toNat, rest)
    else if c = 'b' then some (0x08, rest)
    else if c = 'f' then some (0x0c, rest)
    else if c = 'n' then some (0x0a, rest)
    else if c = 'r' then some (0x0d, rest)
    else if c = 't' then some (0x09, rest)
    else if c = 'u' then unicodeEscape rest
    else none

/-- The code points of a string, after its opening quote. -/
def stringBody : ℕ → List Char → Option (List ℕ × List Char)
  | _, [] => none
  | 0, _ => none
  | fuel + 1, c :: rest =>
    if c = '"' then some ([], rest)
    else if c = '\\' then do
      let (code, rest) ← escape rest
      let (codes, rest) ← stringBody fuel rest
      pure (code :: codes, rest)
    else if c.toNat < 0x20 then none
    else do
      let (codes, rest) ← stringBody fuel rest
      pure (c.toNat :: codes, rest)

def ofCodes (codes : List ℕ) : PyString :=
  if ∀ code ∈ codes, code.isValidChar then .text (String.ofList (codes.map Char.ofNat))
  else .codes codes

def string (text : List Char) : Option (PyString × List Char) := do
  let (codes, rest) ← stringBody text.length text
  pure (ofCodes codes, rest)

/-- The digits after a point; without one, or without digits, nothing is read. -/
def fraction : List Char → List Char × List Char
  | '.' :: rest =>
    if rest.takeWhile Char.isDigit = [] then ([], '.' :: rest)
    else (rest.takeWhile Char.isDigit, rest.dropWhile Char.isDigit)
  | text => ([], text)

/-- The exponent; without one, or without digits, nothing is read. -/
def exponent : List Char → Option ℤ × List Char
  | [] => (none, [])
  | c :: rest =>
    let (negative, body) := splitSign rest
    let digits := body.takeWhile Char.isDigit
    if (c = 'e' ∨ c = 'E') ∧ digits ≠ [] then
      let value : ℤ := Nat.ofDigitChars 10 digits 0
      (some (if negative then -value else value), body.dropWhile Char.isDigit)
    else (none, c :: rest)

/-- A number without its sign: no digit follows a leading zero. -/
def unsigned (text : List Char) : Except Refusal ((ℤ ⊕ ℚ) × List Char) :=
  let digits := text.takeWhile Char.isDigit
  let whole := if digits.head? = some '0' then ['0'] else digits
  if whole = [] then .error .notJson
  else
    let (decimals, rest) := fraction (text.drop whole.length)
    let (scale, rest) := exponent rest
    let value := Nat.ofDigitChars 10 whole 0
    if decimals = [] ∧ scale = none then
      if maxDigits < whole.length then .error (.tooManyDigits whole.length)
      else .ok (.inl value, rest)
    else
      .ok (.inr ((value + Nat.ofDigitChars 10 decimals 0 / 10 ^ decimals.length)
        * 10 ^ scale.getD 0), rest)

def number (text : List Char) : Except Refusal (Json × List Char) :=
  match text with
  | '-' :: rest => (unsigned rest).map fun
    | (.inl n, rest) => (.int (-n), rest)
    | (.inr x, rest) => (.float (-x), rest)
  | _ => (unsigned text).map fun
    | (.inl n, rest) => (.int n, rest)
    | (.inr x, rest) => (.float x, rest)

/-- The value of the first of these words that the text starts with. -/
def word (text : List Char) : List (String × Json) → Option (Json × List Char)
  | [] => none
  | (w, value) :: words =>
    if w.toList.isPrefixOf text then some (value, text.drop w.length) else word text words

def words : List (String × Json) :=
  [("null", .null), ("true", .bool true), ("false", .bool false), ("NaN", .nonFinite "NaN"),
    ("Infinity", .nonFinite "Infinity"), ("-Infinity", .nonFinite "-Infinity")]

section Nested

variable (value : List Char → Except Refusal (Json × List Char))

/-- The elements of an array that is not empty. -/
def elements : ℕ → List Char → Except Refusal (List Json × List Char)
  | 0, _ => .error .notJson
  | fuel + 1, text => do
    let (v, rest) ← value text
    match skipSpace rest with
    | ',' :: rest => do
      let (vs, rest) ← elements fuel (skipSpace rest)
      pure (v :: vs, rest)
    | ']' :: rest => pure ([v], rest)
    | _ => .error .notJson

/-- The members of an object that is not empty. -/
def members : ℕ → List Char → Except Refusal (List (PyString × Json) × List Char)
  | 0, _ => .error .notJson
  | fuel + 1, '"' :: text => do
    let (key, rest) ← orNotJson (string text)
    match skipSpace rest with
    | ':' :: rest => do
      let (v, rest) ← value (skipSpace rest)
      match skipSpace rest with
      | ',' :: rest => do
        let (ms, rest) ← members fuel (skipSpace rest)
        pure ((key, v) :: ms, rest)
      | '\x7d' :: rest => pure ([(key, v)], rest)
      | _ => .error .notJson
    | _ => .error .notJson
  | _ + 1, _ => .error .notJson

end Nested

/-- A value that is nested at most as deep as the first argument says. -/
def value : ℕ → List Char → Except Refusal (Json × List Char)
  | _, [] => .error .notJson
  | 0, _ => .error .notJson
  | fuel + 1, c :: rest =>
    if c = '"' then (orNotJson (string rest)).map fun (text, rest) => (.str text, rest)
    else if c = '\x7b' then
      match skipSpace rest with
      | '\x7d' :: rest => .ok (.object [], rest)
      | rest => (members (value fuel) rest.length rest).map fun (ms, rest) => (.object ms, rest)
    else if c = '[' then
      match skipSpace rest with
      | ']' :: rest => .ok (.array [], rest)
      | rest => (elements (value fuel) rest.length rest).map fun (vs, rest) => (.array vs, rest)
    else
      match word (c :: rest) words with
      | some read => .ok read
      | none => number (c :: rest)

/-- `json.loads`. -/
def loads (text : String) : Except Refusal Json := do
  let (v, rest) ← value text.toList.length (skipSpace text.toList)
  if skipSpace rest = [] then pure v else .error .notJson

/-! ## Texts printed by hand -/

/-- A text whose characters stand for themselves between quotes. -/
def Plain (text : String) : Prop := ∀ c ∈ text.toList, c ≠ '"' ∧ c ≠ '\\' ∧ 0x20 ≤ c.toNat

instance : DecidablePred Plain := fun _ => List.decidableBAll _ _

/-- The values that are printed without escapes. -/
inductive Scalar
  | str (text : String)
  | nat (n : ℕ)
  /-- `scaled / 10 ^ digits` with so many digits after the point. -/
  | fixed (digits scaled : ℕ)

namespace Scalar

def chars : Scalar → List Char
  | str text => '"' :: (text.toList ++ ['"'])
  | nat n => Nat.toDigits 10 n
  | fixed digits scaled => fixedText plainDigits digits scaled

def json : Scalar → Json
  | str text => .str text
  | nat n => .int n
  | fixed digits scaled => .float (scaled / 10 ^ digits)

def Printable : Scalar → Prop
  | str text => Plain text
  | nat n => (Nat.toDigits 10 n).length ≤ maxDigits
  | fixed digits _ => 0 < digits

end Scalar

/-- The members of an object and its closing brace. -/
def membersChars : List (String × Scalar) → List Char
  | [] => ['\x7d']
  | [(key, v)] => '"' :: (key.toList ++ '"' :: ':' :: (v.chars ++ ['\x7d']))
  | (key, v) :: ms => '"' :: (key.toList ++ '"' :: ':' :: (v.chars ++ ',' :: membersChars ms))

def objectChars (ms : List (String × Scalar)) : List Char := '\x7b' :: membersChars ms

theorem stringBody_plain {cs rest : List Char} {fuel : ℕ} (hfuel : cs.length < fuel)
    (h : ∀ c ∈ cs, c ≠ '"' ∧ c ≠ '\\' ∧ 0x20 ≤ c.toNat) :
    stringBody fuel (cs ++ '"' :: rest) = some (cs.map Char.toNat, rest) := by
  induction cs generalizing fuel with
  | nil =>
    obtain ⟨fuel, rfl⟩ := Nat.exists_eq_succ_of_ne_zero (Nat.ne_zero_of_lt hfuel)
    rw [List.nil_append, stringBody, if_pos rfl, List.map_nil]
  | cons c cs ih =>
    obtain ⟨fuel, rfl⟩ := Nat.exists_eq_succ_of_ne_zero (Nat.ne_zero_of_lt hfuel)
    obtain ⟨⟨hq, hb, hc⟩, hcs⟩ := List.forall_mem_cons.1 h
    rw [List.length_cons] at hfuel
    rw [List.cons_append, stringBody, if_neg hq, if_neg hb, if_neg (Nat.not_lt.2 hc),
      ih (by omega) hcs]
    rfl

theorem ofCodes_toNat (cs : List Char) :
    ofCodes (cs.map Char.toNat) = .text (String.ofList cs) := by
  have hvalid : ∀ code ∈ cs.map Char.toNat, code.isValidChar := by
    rw [List.forall_mem_map]
    exact fun c _ => c.valid
  have hchars : (cs.map Char.toNat).map Char.ofNat = cs := by
    rw [List.map_map]
    exact List.map_id'' Char.ofNat_toNat cs
  unfold ofCodes
  rw [if_pos hvalid, hchars]

theorem string_plain {text : String} {rest : List Char} (h : Plain text) :
    string (text.toList ++ '"' :: rest) = some (.text text, rest) := by
  unfold string
  rw [stringBody_plain (by simp) h]
  change some (ofCodes (text.toList.map Char.toNat), rest) = _
  rw [ofCodes_toNat, String.ofList_toList]

/-! ### Numbers -/

theorem eq_zero_of_head_toDigits {n : ℕ} (h : (Nat.toDigits 10 n).head? = some '0') : n = 0 := by
  induction n using Nat.strong_induction_on with
  | h n ih =>
    rcases Nat.lt_or_ge n 10 with hn | hn
    · rw [Nat.toDigits_of_lt_base hn] at h
      interval_cases n <;> simp_all [Nat.digitChar]
    · rw [Nat.toDigits_of_base_le (by decide) hn, List.head?_append_of_ne_nil _ Nat.toDigits_ne_nil]
        at h
      have := ih (n / 10) (by omega) h
      omega

/-- A numeral has no digits after a leading zero. -/
theorem whole_toDigits (n : ℕ) :
    (if (Nat.toDigits 10 n).head? = some '0' then ['0'] else Nat.toDigits 10 n)
      = Nat.toDigits 10 n := by
  split_ifs with h
  · rw [eq_zero_of_head_toDigits h, Nat.toDigits_zero]
  · rfl

/-- A character that ends a number. -/
def Ends (c : Char) : Prop := c.isDigit = false ∧ c ≠ '.' ∧ c ≠ 'e' ∧ c ≠ 'E'

instance (c : Char) : Decidable (Ends c) := instDecidableAnd

section Numbers

variable {c : Char} {rest : List Char}

theorem takeWhile_digits {ds : List Char} (h : ∀ d ∈ ds, d.isDigit = true)
    (hc : c.isDigit = false) : (ds ++ c :: rest).takeWhile Char.isDigit = ds := by
  rw [List.takeWhile_append_of_pos h, List.takeWhile_cons_of_neg (by simp [hc]), List.append_nil]

theorem dropWhile_digits {ds : List Char} (h : ∀ d ∈ ds, d.isDigit = true)
    (hc : c.isDigit = false) : (ds ++ c :: rest).dropWhile Char.isDigit = c :: rest := by
  rw [List.dropWhile_append_of_pos h, List.dropWhile_cons_of_neg (by simp [hc])]

theorem fraction_of_ne (h : c ≠ '.') : fraction (c :: rest) = ([], c :: rest) := by
  unfold fraction
  split
  · rename_i heq
    exact absurd (List.cons.inj heq).1 h
  · rfl

theorem exponent_of_ne (h : c ≠ 'e') (h' : c ≠ 'E') : exponent (c :: rest) = (none, c :: rest) := by
  unfold exponent
  simp [h, h']

theorem Scalar.printable_nat {n : ℕ} (h : n < 2 ^ 64) : (Scalar.nat n).Printable := by
  have hlength : (Nat.toDigits 10 n).length ≤ 20 :=
    (Nat.length_toDigits_le_iff (by decide) (by decide)).2 (lt_trans h (by norm_num))
  exact le_trans hlength (by decide)

theorem unsigned_nat {n : ℕ} (hn : (Scalar.nat n).Printable) (h : Ends c) :
    unsigned (Nat.toDigits 10 n ++ c :: rest) = .ok (.inl n, c :: rest) := by
  obtain ⟨hd, hp, he, he'⟩ := h
  have hlimit : ¬ maxDigits < (Nat.toDigits 10 n).length := Nat.not_lt.2 hn
  unfold unsigned
  simp only [takeWhile_digits isDigit_of_mem_toDigits hd, whole_toDigits, Nat.toDigits_ne_nil,
    if_false, List.drop_left, fraction_of_ne hp, exponent_of_ne he he',
    Nat.ofDigitChars_ten_toDigits, and_self, if_true, hlimit]

theorem length_zeroPadded {digits m : ℕ} (hd : 0 < digits) (hm : m < 10 ^ digits) :
    (zeroPadded digits m).length = digits := by
  have hlen := (Nat.length_toDigits_le_iff (by decide) hd).2 hm
  unfold zeroPadded
  rw [List.length_append, List.length_replicate]
  omega

theorem isDigit_of_mem_zeroPadded {digits m : ℕ} :
    ∀ d ∈ zeroPadded digits m, d.isDigit = true := by
  intro d hd
  rcases List.mem_append.1 hd with hd | hd
  · obtain ⟨-, rfl⟩ := List.mem_replicate.1 hd
    decide
  · exact isDigit_of_mem_toDigits d hd

theorem ofDigitChars_zeroPadded (digits m : ℕ) :
    Nat.ofDigitChars 10 (zeroPadded digits m) 0 = m := by
  unfold zeroPadded
  rw [Nat.ofDigitChars_append, Nat.ofDigitChars_replicate_zero, Nat.mul_zero,
    Nat.ofDigitChars_ten_toDigits]

theorem unsigned_fixed {digits : ℕ} (scaled : ℕ) (hdigits : 0 < digits) (h : Ends c) :
    unsigned (fixedText plainDigits digits scaled ++ c :: rest)
      = .ok (.inr (scaled / 10 ^ digits), c :: rest) := by
  obtain ⟨hd, hp, he, he'⟩ := h
  have hpoint : ('.' : Char).isDigit = false := by decide
  have hpos : 0 < 10 ^ digits := by positivity
  have hlen := length_zeroPadded hdigits (Nat.mod_lt scaled hpos)
  have hne : zeroPadded digits (scaled % 10 ^ digits) ≠ [] := by
    intro hnil
    rw [hnil, List.length_nil] at hlen
    omega
  have hvalue : ((scaled / 10 ^ digits : ℕ) + (scaled % 10 ^ digits : ℕ) / 10 ^ digits : ℚ)
      = scaled / 10 ^ digits := by
    have hdiv : (scaled : ℚ) = 10 ^ digits * (scaled / 10 ^ digits : ℕ)
        + (scaled % 10 ^ digits : ℕ) := by
      exact_mod_cast (Nat.div_add_mod scaled (10 ^ digits)).symm
    field_simp
    linarith only [hdiv]
  unfold unsigned fixedText plainDigits
  rw [List.append_assoc, List.cons_append]
  simp only [takeWhile_digits isDigit_of_mem_toDigits hpoint, whole_toDigits, Nat.toDigits_ne_nil,
    if_false, List.drop_left, Nat.ofDigitChars_ten_toDigits, fraction,
    takeWhile_digits isDigit_of_mem_zeroPadded hd, dropWhile_digits isDigit_of_mem_zeroPadded hd,
    hne, exponent_of_ne he he', false_and, ofDigitChars_zeroPadded, hlen, Option.getD_none,
    zpow_zero, mul_one, hvalue]

theorem isDigit_ne {d d' : Char} (h : d.isDigit = true) (h' : d'.isDigit = false) : d ≠ d' := by
  rintro rfl
  rw [h] at h'
  exact Bool.noConfusion h'

/-- A value that starts with a digit is a number. -/
theorem value_digit {d : Char} {fuel : ℕ} (h : d.isDigit = true) :
    value (fuel + 1) (d :: rest) = number (d :: rest) := by
  have hword : word (d :: rest) words = none := by
    have hn := isDigit_ne h (show ('n' : Char).isDigit = false by decide)
    have ht := isDigit_ne h (show ('t' : Char).isDigit = false by decide)
    have hf := isDigit_ne h (show ('f' : Char).isDigit = false by decide)
    have hN := isDigit_ne h (show ('N' : Char).isDigit = false by decide)
    have hI := isDigit_ne h (show ('I' : Char).isDigit = false by decide)
    have hm := isDigit_ne h (show ('-' : Char).isDigit = false by decide)
    simp [word, words, hn.symm, ht.symm, hf.symm, hN.symm, hI.symm, hm.symm]
  rw [value, if_neg (isDigit_ne h (by decide)), if_neg (isDigit_ne h (by decide)),
    if_neg (isDigit_ne h (by decide)), hword]

theorem number_of_ne {d : Char} (h : d ≠ '-') : number (d :: rest)
    = (unsigned (d :: rest)).map fun
      | (.inl n, rest) => (.int n, rest)
      | (.inr x, rest) => (.float x, rest) := by
  unfold number
  split
  · rename_i heq
    exact absurd (List.cons.inj heq).1 h
  · rfl

/-- The first character of a numeral. -/
theorem exists_toDigits (n : ℕ) : ∃ d ds, Nat.toDigits 10 n = d :: ds ∧ d.isDigit = true := by
  obtain ⟨d, ds, h⟩ := List.exists_cons_of_ne_nil (Nat.toDigits_ne_nil (n := n) (b := 10))
  exact ⟨d, ds, h, isDigit_of_mem_toDigits d (h ▸ List.mem_cons_self)⟩

theorem exists_fixedText (digits scaled : ℕ) : ∃ d ds,
    fixedText plainDigits digits scaled = d :: ds ∧ d.isDigit = true := by
  obtain ⟨d, ds, hds, hd⟩ := exists_toDigits (scaled / 10 ^ digits)
  unfold fixedText plainDigits
  rw [hds, List.cons_append]
  exact ⟨d, _, rfl, hd⟩

theorem value_scalar {v : Scalar} {fuel : ℕ} (hv : v.Printable) (h : Ends c) :
    value (fuel + 1) (v.chars ++ c :: rest) = .ok (v.json, c :: rest) := by
  cases v with
  | str text =>
    rw [Scalar.chars, List.cons_append, List.append_assoc, List.singleton_append, value, if_pos rfl,
      string_plain hv]
    rfl
  | nat n =>
    obtain ⟨d, ds, hds, hd⟩ := exists_toDigits n
    have hu : unsigned (Nat.toDigits 10 n ++ c :: rest) = _ := unsigned_nat hv h
    rw [hds, List.cons_append] at hu
    rw [Scalar.chars, hds, List.cons_append, value_digit hd,
      number_of_ne (isDigit_ne hd (by decide)), hu]
    rfl
  | fixed digits scaled =>
    obtain ⟨d, ds, hds, hd⟩ := exists_fixedText digits scaled
    have hu : unsigned (fixedText plainDigits digits scaled ++ c :: rest) = _ :=
      unsigned_fixed scaled hv h
    rw [hds, List.cons_append] at hu
    rw [Scalar.chars, hds, List.cons_append, value_digit hd,
      number_of_ne (isDigit_ne hd (by decide)), hu]
    rfl

end Numbers

/-! ### Objects -/

theorem skipSpace_of_ne {c : Char} {rest : List Char} (h : isSpace c = false) :
    skipSpace (c :: rest) = c :: rest :=
  List.dropWhile_cons_of_neg (by simp [h])

/-- No value starts with white space. -/
theorem skipSpace_chars {v : Scalar} {rest : List Char} :
    skipSpace (v.chars ++ rest) = v.chars ++ rest := by
  have hdigit : ∀ {d : Char}, d.isDigit = true → isSpace d = false := by
    intro d hd
    simp [isSpace, isDigit_ne hd]
  cases v with
  | str text => exact skipSpace_of_ne (by decide)
  | nat n =>
    obtain ⟨d, ds, hds, hd⟩ := exists_toDigits n
    rw [Scalar.chars, hds]
    exact skipSpace_of_ne (hdigit hd)
  | fixed digits scaled =>
    obtain ⟨d, ds, hds, hd⟩ := exists_fixedText digits scaled
    rw [Scalar.chars, hds]
    exact skipSpace_of_ne (hdigit hd)

def memberJson (m : String × Scalar) : PyString × Json := (m.1, m.2.json)

theorem skipSpace_membersChars {m : String × Scalar} {ms : List (String × Scalar)}
    {rest : List Char} :
    skipSpace (membersChars (m :: ms) ++ rest) = membersChars (m :: ms) ++ rest := by
  cases ms with
  | nil => exact skipSpace_of_ne (by decide)
  | cons m' ms => exact skipSpace_of_ne (by decide)

theorem members_chars {ms : List (String × Scalar)} {fuel depth : ℕ} {rest : List Char}
    (hne : ms ≠ []) (hfuel : ms.length ≤ fuel) (hdepth : depth ≠ 0)
    (h : ∀ m ∈ ms, Plain m.1 ∧ m.2.Printable) :
    members (value depth) fuel (membersChars ms ++ rest) = .ok (ms.map memberJson, rest) := by
  obtain ⟨depth, rfl⟩ := Nat.exists_eq_succ_of_ne_zero hdepth
  induction ms generalizing fuel with
  | nil => exact absurd rfl hne
  | cons m ms ih =>
    obtain ⟨key, v⟩ := m
    rw [List.length_cons] at hfuel
    obtain ⟨fuel, rfl⟩ := Nat.exists_eq_succ_of_ne_zero (by omega : fuel ≠ 0)
    obtain ⟨⟨hkey, hv⟩, hms⟩ := List.forall_mem_cons.1 h
    have hcolon : ∀ rest, skipSpace (':' :: rest) = ':' :: rest :=
      fun _ => skipSpace_of_ne (by decide)
    rcases ms with _ | ⟨m, ms⟩
    · have hchars : membersChars [(key, v)] ++ rest
          = '"' :: (key.toList ++ '"' :: ':' :: (v.chars ++ '\x7d' :: rest)) := by
        simp [membersChars]
      have hend : Ends '\x7d' := by decide
      have hbrace : skipSpace ('\x7d' :: rest) = '\x7d' :: rest := skipSpace_of_ne (by decide)
      rw [hchars, members, string_plain hkey]
      simp only [orNotJson, bind, Except.bind, hcolon, skipSpace_chars,
        value_scalar hv hend, hbrace]
      rfl
    · have hchars : membersChars ((key, v) :: m :: ms) ++ rest = '"' :: (key.toList ++
          '"' :: ':' :: (v.chars ++ ',' :: (membersChars (m :: ms) ++ rest))) := by
        simp [membersChars]
      have hend : Ends ',' := by decide
      have hcomma : ∀ rest, skipSpace (',' :: rest) = ',' :: rest :=
        fun _ => skipSpace_of_ne (by decide)
      have hrest : members (value (depth + 1)) fuel (membersChars (m :: ms) ++ rest) = _ :=
        ih (by simp) (by omega) hms
      rw [hchars, members, string_plain hkey]
      simp only [orNotJson, bind, Except.bind, hcolon, skipSpace_chars,
        value_scalar hv hend, hcomma, skipSpace_membersChars, hrest]
      rfl

theorem length_le_membersChars (ms : List (String × Scalar)) :
    ms.length ≤ (membersChars ms).length := by
  fun_induction membersChars ms with
  | case1 => simp
  | case2 key v => simp
  | case3 key v ms hne ih =>
    simp only [List.length_cons, List.length_append]
    omega

/-- The decoder gives back what was printed. -/
theorem loads_objectChars {ms : List (String × Scalar)} (hne : ms ≠ [])
    (h : ∀ m ∈ ms, Plain m.1 ∧ m.2.Printable) :
    loads (String.ofList (objectChars ms ++ ['\n'])) = .ok (.object (ms.map memberJson)) := by
  have hbrace : ∀ rest, skipSpace ('\x7b' :: rest) = '\x7b' :: rest :=
    fun _ => skipSpace_of_ne (by decide)
  obtain ⟨m, ms, rfl⟩ := List.exists_cons_of_ne_nil hne
  have hlen := length_le_membersChars (m :: ms)
  obtain ⟨text, htext⟩ : ∃ text, membersChars (m :: ms) ++ ['\n'] = '"' :: text := by
    cases ms with
    | nil => exact ⟨_, rfl⟩
    | cons m' ms => exact ⟨_, rfl⟩
  have hlength : text.length = (membersChars (m :: ms)).length := by
    have := congrArg List.length htext
    rw [List.length_append, List.length_singleton, List.length_cons] at this
    omega
  have hms : members (value (text.length + 1)) (text.length + 1) ('"' :: text)
      = .ok ((m :: ms).map memberJson, ['\n']) := by
    rw [← htext]
    exact members_chars hne (by omega) (by omega) h
  have hquote : skipSpace ('"' :: text) = '"' :: text := skipSpace_of_ne (by decide)
  have hvalue : value (text.length + 1 + 1) ('\x7b' :: '"' :: text)
      = .ok (.object ((m :: ms).map memberJson), ['\n']) := by
    rw [value, if_neg (by decide), if_pos rfl, hquote]
    change (members (value (text.length + 1)) (text.length + 1) ('"' :: text)).map _ = _
    rw [hms]
    rfl
  unfold loads objectChars
  rw [String.toList_ofList, List.cons_append, htext, hbrace, List.length_cons, List.length_cons,
    hvalue]
  rfl

/-- No control character is printed. -/
theorem le_of_mem_membersChars {ms : List (String × Scalar)}
    (h : ∀ m ∈ ms, Plain m.1 ∧ m.2.Printable) : ∀ c ∈ membersChars ms, 0x20 ≤ c.toNat := by
  have hplain : ∀ {text : String}, Plain text → ∀ c ∈ text.toList, 0x20 ≤ c.toNat :=
    fun ht c hc => (ht c hc).2.2
  have hdigit : ∀ {d : Char}, d.isDigit = true → 0x20 ≤ d.toNat := by
    intro d hd
    simp only [Char.isDigit, Bool.and_eq_true, decide_eq_true_eq, UInt32.le_iff_toNat_le] at hd
    exact le_trans (by decide) hd.1
  have hscalar : ∀ {v : Scalar}, v.Printable → ∀ c ∈ v.chars, 0x20 ≤ c.toNat := by
    intro v hv
    cases v with
    | str text => simpa [Scalar.chars, or_imp, forall_and] using hplain hv
    | nat n => exact fun c hc => hdigit (isDigit_of_mem_toDigits c hc)
    | fixed digits scaled =>
      have hwhole : ∀ c ∈ Nat.toDigits 10 (scaled / 10 ^ digits), 0x20 ≤ c.toNat :=
        fun c hc => hdigit (isDigit_of_mem_toDigits c hc)
      have hrest : ∀ c ∈ zeroPadded digits (scaled % 10 ^ digits), 0x20 ≤ c.toNat :=
        fun c hc => hdigit (isDigit_of_mem_zeroPadded c hc)
      simp only [Scalar.chars, fixedText, plainDigits, List.forall_mem_append,
        List.forall_mem_cons]
      exact ⟨hwhole, by decide, hrest⟩
  fun_induction membersChars ms with
  | case1 => simp
  | case2 key v =>
    obtain ⟨hkey, hv⟩ := h (key, v) List.mem_cons_self
    simp only [List.forall_mem_append, List.forall_mem_cons]
    exact ⟨by decide, hplain hkey, by decide, by decide, hscalar hv, by decide, by simp⟩
  | case3 key v ms hne ih =>
    obtain ⟨⟨hkey, hv⟩, hms⟩ := List.forall_mem_cons.1 h
    simp only [List.forall_mem_append, List.forall_mem_cons]
    exact ⟨by decide, hplain hkey, by decide, by decide, hscalar hv, by decide, ih hms⟩

/-- What is printed stands on one line. -/
theorem newline_not_mem_membersChars {ms : List (String × Scalar)}
    (h : ∀ m ∈ ms, Plain m.1 ∧ m.2.Printable) : '\n' ∉ membersChars ms :=
  fun hmem => absurd (le_of_mem_membersChars h _ hmem) (by decide)

end Json

end OfbBench
