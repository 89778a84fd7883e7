import Mathlib

/-!
# Numbers as text

Decimal numerals, fixed-point text of a rational rounded half to even (what `printf` and `format`
write for an exact value), padding, and `strtoull` in base 10.
-/

namespace OfbBench

/-- The natural number nearest to a nonnegative rational, the even one of two. -/
def roundHalfEven (x : ℚ) : ℕ :=
  if x - ⌊x⌋₊ < 1 / 2 then ⌊x⌋₊
  else if 1 / 2 < x - ⌊x⌋₊ then ⌊x⌋₊ + 1
  else if ⌊x⌋₊ % 2 = 0 then ⌊x⌋₊ else ⌊x⌋₊ + 1

theorem roundHalfEven_le {x : ℚ} (h : 0 ≤ x) : (roundHalfEven x : ℚ) ≤ x + 1 := by
  have hfloor := Nat.floor_le h
  unfold roundHalfEven
  split_ifs
  all_goals
    push_cast
    linarith

/-- An even number is reached from half below it on. -/
theorem le_roundHalfEven_iff {x : ℚ} (h : 0 ≤ x) {n : ℕ} (hn : n % 2 = 0) :
    n ≤ roundHalfEven x ↔ (n : ℚ) - 1 / 2 ≤ x := by
  have hfloor := Nat.floor_le h
  have hlt := Nat.lt_floor_add_one x
  have hcast : ∀ {m : ℕ}, (n : ℚ) < m + 1 → n ≤ m := by
    intro m hm
    exact Nat.lt_add_one_iff.1 (by exact_mod_cast hm)
  unfold roundHalfEven
  split_ifs with hlow hhigh heven
  · refine ⟨fun hle => ?_, fun hle => hcast (by linarith)⟩
    have : (n : ℚ) ≤ ⌊x⌋₊ := by exact_mod_cast hle
    linarith
  · refine ⟨fun hle => ?_, fun hle => hcast ?_⟩
    · have : (n : ℚ) ≤ ⌊x⌋₊ + 1 := by exact_mod_cast hle
      linarith
    · push_cast
      linarith
  · refine ⟨fun hle => ?_, fun hle => ?_⟩
    · have : (n : ℚ) ≤ ⌊x⌋₊ := by exact_mod_cast hle
      linarith
    · -- half above an even number stays below the next one, which is odd
      have hsucc : n ≤ ⌊x⌋₊ + 1 := hcast (by push_cast; linarith)
      omega
  · refine ⟨fun hle => ?_, fun hle => hcast ?_⟩
    · have : (n : ℚ) ≤ ⌊x⌋₊ + 1 := by exact_mod_cast hle
      linarith
    · push_cast
      linarith

/-- The digits of `n`, with zeros before them up to the width. -/
def zeroPadded (width n : ℕ) : List Char :=
  List.replicate (width - (Nat.toDigits 10 n).length) '0' ++ Nat.toDigits 10 n

/-- A comma after every third digit, counted from the right; the argument is reversed. -/
def groupThousands : List Char → List Char
  | a :: b :: c :: d :: rest => a :: b :: c :: ',' :: groupThousands (d :: rest)
  | rest => rest

/-- The text of `scaled / 10 ^ digits`, its integer part written by `whole`. -/
def fixedText (whole : ℕ → List Char) (digits scaled : ℕ) : List Char :=
  whole (scaled / 10 ^ digits) ++ '.' :: zeroPadded digits (scaled % 10 ^ digits)

/-- `x` with `digits` digits after the point, as `%.*f` writes it. -/
def fixed (whole : ℕ → List Char) (digits : ℕ) (x : ℚ) : String :=
  String.ofList ((if x < 0 then ['-'] else []) ++
    fixedText whole digits (roundHalfEven (|x| * 10 ^ digits)))

theorem toList_fixed_of_nonneg (whole : ℕ → List Char) (digits : ℕ) {x : ℚ} (h : 0 ≤ x) :
    (fixed whole digits x).toList = fixedText whole digits (roundHalfEven (x * 10 ^ digits)) := by
  unfold fixed
  rw [String.toList_ofList, if_neg (not_lt.2 h), abs_of_nonneg h, List.nil_append]

theorem point_mem_fixed (whole : ℕ → List Char) (digits : ℕ) (x : ℚ) :
    '.' ∈ (fixed whole digits x).toList := by
  unfold fixed fixedText
  simp

theorem isDigit_of_mem_toDigits {n : ℕ} : ∀ c ∈ Nat.toDigits 10 n, c.isDigit = true :=
  fun _ => Nat.isDigit_of_mem_toDigits (by decide) (by decide)

def plainDigits (n : ℕ) : List Char := Nat.toDigits 10 n

def groupedDigits (n : ℕ) : List Char := (groupThousands (Nat.toDigits 10 n).reverse).reverse

def padLeft (width : ℕ) (s : String) : String :=
  String.ofList (List.replicate (width - s.length) ' ') ++ s

def padRight (width : ℕ) (s : String) : String :=
  s ++ String.ofList (List.replicate (width - s.length) ' ')

/-! ## `strtoull` -/

/-- `isspace` in the C locale. -/
def isCSpace (c : Char) : Bool :=
  c = ' ' ∨ c = '\t' ∨ c = '\n' ∨ c = '\x0b' ∨ c = '\x0c' ∨ c = '\r'

/-- The value `strtoull` returns, what `*end` points to, and whether `errno` is `ERANGE`. -/
structure Strtoull where
  value : UInt64
  rest : List Char
  erange : Bool
  deriving DecidableEq

/-- The optional sign of a numeral: whether it is a minus sign, and the text after it. -/
def splitSign : List Char → Bool × List Char
  | '-' :: text => (true, text)
  | '+' :: text => (false, text)
  | text => (false, text)

/-- `strtoull(text, &end, 10)`: white space, a sign and digits. The value saturates; a minus sign
negates it in the unsigned type. Without a digit nothing is read. -/
def strtoull (text : List Char) : Strtoull :=
  let (negative, body) := splitSign (text.dropWhile isCSpace)
  let digits := body.takeWhile Char.isDigit
  let value := Nat.ofDigitChars 10 digits 0
  if digits = [] then ⟨0, text, false⟩
  else if 2 ^ 64 ≤ value then ⟨18446744073709551615, body.dropWhile Char.isDigit, true⟩
  else ⟨if negative then 0 - UInt64.ofNat value else UInt64.ofNat value,
    body.dropWhile Char.isDigit, false⟩

end OfbBench
