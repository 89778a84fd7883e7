import OfbBench.Lib.Format

/-!
# Numbers as Python reads and writes them

Decimal digits of any script and `int`; binary64 numbers (`PyFloat`), rounded to nearest with ties
to even, with division, `math.ceil`, the `f` format and what `float` reads; the lines of a text
file.
-/

namespace OfbBench

/-- An exception, with the text of the ones a program raises itself. -/
inductive Raised
  | valueError (message : String)
  | typeError
  | zeroDivisionError
  | overflowError
  | fileError
  deriving DecidableEq, Repr

/-! ## Digits -/

/-- The code points of the zeros of Unicode 15, as in Python 3.12; the other digits of a script
follow its zero. -/
def zeroDigits : List ℕ :=
  [0x30, 0x660, 0x6f0, 0x7c0, 0x966, 0x9e6, 0xa66, 0xae6, 0xb66, 0xbe6, 0xc66, 0xce6, 0xd66, 0xde6,
    0xe50, 0xed0, 0xf20, 0x1040, 0x1090, 0x17e0, 0x1810, 0x1946, 0x19d0, 0x1a80, 0x1a90, 0x1b50,
    0x1bb0, 0x1c40, 0x1c50, 0xa620, 0xa8d0, 0xa900, 0xa9d0, 0xa9f0, 0xaa50, 0xabf0, 0xff10, 0x104a0,
    0x10d30, 0x11066, 0x110f0, 0x11136, 0x111d0, 0x112f0, 0x11450, 0x114d0, 0x11650, 0x116c0,
    0x11730, 0x118e0, 0x11950, 0x11c50, 0x11d50, 0x11da0, 0x11f50, 0x16a60, 0x16ac0, 0x16b50,
    0x1d7ce, 0x1d7d8, 0x1d7e2, 0x1d7ec, 0x1d7f6, 0x1e140, 0x1e2f0, 0x1e4f0, 0x1e950, 0x1fbf0]

/-- The value of a decimal digit. -/
def digitValue (c : Char) : Option ℕ :=
  (zeroDigits.find? fun first => first ≤ c.toNat ∧ c.toNat < first + 10).map (c.toNat - ·)

/-- `\d`. -/
def isPyDigit (c : Char) : Bool := (digitValue c).isSome

/-- `int(text)` for a text of digits. The interpreter's limit on their number is left out: it is far
above the length of a file name. -/
def pyInt (digits : List Char) : ℕ := digits.foldl (fun n c => 10 * n + (digitValue c).getD 0) 0

section Digits

variable {c : Char}

theorem isDigit_iff : c.isDigit ↔ 48 ≤ c.toNat ∧ c.toNat ≤ 57 := by
  simp only [Char.isDigit, Bool.and_eq_true, decide_eq_true_eq, UInt32.le_iff_toNat_le]
  rfl

theorem exists_digit (h : c.isDigit) : ∃ n < 10, c = Char.ofNat (48 + n) := by
  have hc := isDigit_iff.1 h
  refine ⟨c.toNat - 48, by omega, ?_⟩
  rw [Nat.add_sub_cancel' hc.1, Char.ofNat_toNat]

theorem digitChar_of_isDigit (h : c.isDigit) : (c.toNat - 48).digitChar = c := by
  obtain ⟨n, hn, rfl⟩ := exists_digit h
  interval_cases n <;> rfl

theorem digitValue_of_isDigit (h : c.isDigit) : digitValue c = some (c.toNat - 48) := by
  have hc := isDigit_iff.1 h
  have hfind :
      zeroDigits.find? (fun first => first ≤ c.toNat ∧ c.toNat < first + 10) = some 0x30 := by
    unfold zeroDigits
    refine List.find?_cons_of_pos ?_
    simp only [decide_eq_true_eq]
    omega
  unfold digitValue
  rw [hfind]
  rfl

theorem isPyDigit_of_isDigit (h : c.isDigit) : isPyDigit c := by
  unfold isPyDigit
  rw [digitValue_of_isDigit h]
  rfl

theorem pyInt_eq {digits : List Char} (h : ∀ c ∈ digits, c.isDigit) :
    pyInt digits = Nat.ofDigitChars 10 digits 0 := by
  have hfold : ∀ n, digits.foldl (fun n c => 10 * n + (digitValue c).getD 0) n
      = Nat.ofDigitChars 10 digits n := by
    induction digits with
    | nil => exact fun n => rfl
    | cons c digits ih =>
      intro n
      rw [List.foldl_cons, digitValue_of_isDigit (h c (by simp)),
        ih (fun d hd => h d (by simp [hd])), Nat.ofDigitChars_cons]
      rfl
  exact hfold 0

/-- Reading a number that was written in decimal. -/
theorem pyInt_toDigits (n : ℕ) : pyInt (Nat.toDigits 10 n) = n := by
  rw [pyInt_eq isDigit_of_mem_toDigits]
  exact Nat.ofDigitChars_ten_toDigits

/-- Digits are leading zeros and the decimal numeral of the number they are read as. -/
theorem exists_leadingZeros {digits : List Char} (hne : digits ≠ [])
    (h : ∀ c ∈ digits, c.isDigit) :
    ∃ zeros, digits = List.replicate zeros '0' ++ Nat.toDigits 10 (pyInt digits) := by
  induction digits using List.reverseRecOn with
  | nil => exact absurd rfl hne
  | append_singleton ds c ih =>
    have hc : c.isDigit := h c (by simp)
    have hvalue : pyInt (ds ++ [c]) = 10 * pyInt ds + (c.toNat - 48) := by
      unfold pyInt
      rw [List.foldl_append, List.foldl_cons, List.foldl_nil, digitValue_of_isDigit hc]
      rfl
    have hlt : c.toNat - 48 < 10 := by
      have := (isDigit_iff.1 hc).2
      omega
    have hdigit : Nat.toDigits 10 (c.toNat - 48) = [c] := by
      rw [Nat.toDigits_of_lt_base hlt, digitChar_of_isDigit hc]
    rw [hvalue]
    by_cases hds : ds = []
    · subst hds
      exact ⟨0, by rw [show pyInt [] = 0 from rfl, Nat.mul_zero, Nat.zero_add, hdigit]; rfl⟩
    obtain ⟨zeros, hzeros⟩ := ih hds fun d hd => h d (by simp [hd])
    rcases Nat.eq_zero_or_pos (pyInt ds) with h0 | hpos
    · rw [h0, Nat.toDigits_zero, ← List.replicate_succ'] at hzeros
      refine ⟨zeros + 1, ?_⟩
      rw [h0, Nat.mul_zero, Nat.zero_add, hdigit, ← hzeros]
    · refine ⟨zeros, ?_⟩
      rw [← Nat.toDigits_append_toDigits (by decide) hpos hlt, hdigit, ← List.append_assoc,
        ← hzeros]

end Digits

/-! ## Binary64 numbers -/

/-- A binary64 number, a finite one by its sign and its magnitude. -/
inductive PyFloat
  | finite (negative : Bool) (magnitude : ℚ≥0)
  | infinite (negative : Bool)
  | nan
  deriving DecidableEq

namespace PyFloat

/-- The number nearest to one of this sign and magnitude, of two the one whose significand is
even. -/
def round (negative : Bool) (x : ℚ≥0) : PyFloat :=
  let ulp : ℚ≥0 := 2 ^ max (Int.log 2 x - 52) (-1074)
  let rounded : ℚ≥0 := roundHalfEven (x / ulp : ℚ≥0) * ulp
  if 2 ^ 1024 ≤ rounded then .infinite negative else .finite negative rounded

/-- Whether a number counts as true. -/
def truthy : PyFloat → Bool
  | .finite _ x => x ≠ 0
  | _ => true

/-- `abs(x) >= bound`. -/
def absAtLeast (bound : ℕ) : PyFloat → Bool
  | .finite _ x => bound ≤ x
  | .infinite _ => true
  | .nan => false

/-- `x / y`. -/
def div : PyFloat → PyFloat → Except Raised PyFloat
  | x, .finite t b =>
    if b = 0 then .error .zeroDivisionError
    else match x with
      | .finite s a => .ok (round (s ^^ t) (a / b))
      | .infinite s => .ok (.infinite (s ^^ t))
      | .nan => .ok .nan
  | .finite s _, .infinite t => .ok (.finite (s ^^ t) 0)
  | _, _ => .ok .nan

/-- `math.ceil(x)`. -/
def ceil : PyFloat → Except Raised ℤ
  | .finite negative x => .ok ⌈if negative then -(x : ℚ) else x⌉
  | .infinite _ => .error .overflowError
  | .nan => .error (.valueError "cannot convert float NaN to integer")

/-- The `f` format with so many digits after the point, and without a point for none. -/
def format (whole : ℕ → List Char) (digits : ℕ) (x : PyFloat) : String :=
  let sign (negative : Bool) := if negative then ['-'] else []
  String.ofList (match x with
    | .finite negative x =>
      sign negative ++ if digits = 0 then whole (roundHalfEven x)
        else fixedText whole digits (roundHalfEven (x * 10 ^ digits))
    | .infinite negative => sign negative ++ ['i', 'n', 'f']
    | .nan => ['n', 'a', 'n'])

theorem div_of_truthy {y : PyFloat} (h : y.truthy) (x : PyFloat) : ∃ z, x.div y = .ok z := by
  cases y with
  | finite t b =>
    have hb : b ≠ 0 := by simpa [truthy] using h
    cases x <;> simp [div, hb]
  | infinite t => cases x <;> simp [div]
  | nan => cases x <;> simp [div]

/-- The distance of the numbers with the exponent of `x`. -/
def ulp (x : ℚ≥0) : ℚ≥0 := 2 ^ max (Int.log 2 x - 52) (-1074)

/-- The nearest number to `x` if the exponents had no bound above. -/
def nearest (x : ℚ≥0) : ℚ≥0 := roundHalfEven (x / ulp x : ℚ≥0) * ulp x

section Round

variable {x : ℚ≥0}

theorem round_eq (negative : Bool) (x : ℚ≥0) : round negative x =
    if 2 ^ 1024 ≤ nearest x then .infinite negative else .finite negative (nearest x) := rfl

theorem ulp_pos (x : ℚ≥0) : 0 < ulp x := by
  unfold ulp
  positivity

theorem lt_two_pow_iff (hx : 0 < x) (n : ℕ) : x < 2 ^ n ↔ Int.log 2 x < n := by
  rw [← Int.lt_zpow_iff_log_lt one_lt_two hx, zpow_natCast, Nat.cast_ofNat]

theorem nearest_le (x : ℚ≥0) : nearest x ≤ x + ulp x := by
  have hcount : (roundHalfEven (x / ulp x : ℚ≥0) : ℚ≥0) ≤ x / ulp x + 1 := by
    exact_mod_cast roundHalfEven_le (x := (x / ulp x : ℚ≥0)) (NNRat.coe_nonneg _)
  calc nearest x ≤ (x / ulp x + 1) * ulp x := by
        unfold nearest
        gcongr
    _ = x + ulp x := by rw [add_mul, div_mul_cancel₀ _ (ulp_pos x).ne', one_mul]

theorem two_pow_add_le : (2 : ℚ≥0) ^ 1023 + 2 ^ 970 ≤ 2 ^ 1024 := by
  have hle : (2 : ℚ≥0) ^ 970 ≤ 2 ^ 1023 := pow_le_pow_right₀ one_le_two (by omega)
  calc (2 : ℚ≥0) ^ 1023 + 2 ^ 970 ≤ 2 ^ 1023 + 2 ^ 1023 := by gcongr
    _ = 2 ^ 1024 := by rw [← two_mul, ← pow_succ']

theorem nearest_lt (h : x < 2 ^ 1023) : nearest x < 2 ^ 1024 := by
  have hexponent : max (Int.log 2 x - 52) (-1074) ≤ 970 := by
    rcases eq_or_ne x 0 with rfl | hx
    · rw [Int.log_zero_right]
      omega
    · have := (lt_two_pow_iff (pos_of_ne_zero hx) 1023).1 h
      omega
  have hulp : ulp x ≤ 2 ^ 970 := by
    unfold ulp
    rw [← zpow_natCast]
    exact zpow_le_zpow_right₀ one_le_two hexponent
  calc nearest x ≤ x + ulp x := nearest_le x
    _ < 2 ^ 1023 + 2 ^ 970 := add_lt_add_of_lt_of_le h hulp
    _ ≤ 2 ^ 1024 := two_pow_add_le

/-- The numbers below `2 ^ 1024` are `2 ^ 971` apart there, of which it is an even multiple. -/
theorem le_nearest_iff (h : 2 ^ 1023 ≤ x) (h' : x < 2 ^ 1024) :
    2 ^ 1024 ≤ nearest x ↔ 2 ^ 1024 ≤ x + 2 ^ 970 := by
  have hx : 0 < x := h.trans_lt' (by positivity)
  have hulp : ulp x = 2 * 2 ^ 970 := by
    have hlow := (lt_two_pow_iff hx 1023).not.1 (not_lt.2 h)
    have hhigh := (lt_two_pow_iff hx 1024).1 h'
    have hexponent : max (Int.log 2 x - 52) (-1074) = (971 : ℕ) := by omega
    unfold ulp
    rw [hexponent, zpow_natCast, ← pow_succ']
  have htop : (2 : ℚ≥0) ^ 1024 = 2 ^ 53 * (2 * 2 ^ 970) := by
    rw [← pow_succ', ← pow_add]
  have hpos : (0 : ℚ≥0) < 2 ^ 970 := by positivity
  unfold nearest
  rw [hulp, htop]
  generalize (2 : ℚ≥0) ^ 970 = p at hpos ⊢
  have hpos' : (0 : ℚ) < (2 * p : ℚ≥0) := by exact_mod_cast mul_pos two_pos hpos
  have hnat : (2 : ℚ≥0) ^ 53 ≤ roundHalfEven (x / (2 * p) : ℚ≥0) ↔
      2 ^ 53 ≤ roundHalfEven (x / (2 * p) : ℚ≥0) := by exact_mod_cast Iff.rfl
  have hcast : 2 ^ 53 * (2 * p) ≤ x + p ↔ (2 : ℚ) ^ 53 * (2 * p) ≤ x + p := by
    exact_mod_cast Iff.rfl
  rw [mul_le_mul_iff_left₀ (mul_pos two_pos hpos), hnat,
    le_roundHalfEven_iff (NNRat.coe_nonneg _) (by decide), NNRat.cast_div, le_div_iff₀ hpos', hcast]
  push_cast
  constructor
  · intro h
    linarith
  · intro h
    linarith

theorem le_nearest (h : 2 ^ 1024 ≤ x) : 2 ^ 1024 ≤ nearest x := by
  have hx : 0 < x := h.trans_lt' (by positivity)
  have hexponent : 1024 ≤ Int.log 2 x := by
    have := (lt_two_pow_iff hx 1024).not.1 (not_lt.2 h)
    omega
  have hpow : (2 : ℚ≥0) ^ 52 * ulp x = 2 ^ Int.log 2 x := by
    unfold ulp
    rw [max_eq_left (by omega), ← zpow_natCast, ← zpow_add₀ two_ne_zero, Nat.cast_ofNat,
      add_sub_cancel]
  have hle : (2 : ℚ≥0) ^ 52 ≤ x / ulp x := by
    rw [le_div_iff₀ (ulp_pos x), hpow]
    exact Int.zpow_log_le_self one_lt_two hx
  have hcount : 2 ^ 52 ≤ roundHalfEven (x / ulp x : ℚ≥0) := by
    rw [le_roundHalfEven_iff (NNRat.coe_nonneg _) (by decide)]
    have hcast : ((2 ^ 52 : ℕ) : ℚ) ≤ (x / ulp x : ℚ≥0) := by exact_mod_cast hle
    linarith
  calc (2 : ℚ≥0) ^ 1024 = 2 ^ (1024 : ℤ) := (zpow_natCast 2 1024).symm
    _ ≤ 2 ^ Int.log 2 x := zpow_le_zpow_right₀ one_le_two hexponent
    _ = 2 ^ 52 * ulp x := hpow.symm
    _ ≤ nearest x := by
      unfold nearest
      gcongr
      exact_mod_cast hcount

/-- A number is rounded to infinity from the middle of the greatest finite one and `2 ^ 1024` on. -/
theorem round_eq_infinite {negative : Bool} :
    round negative x = .infinite negative ↔ 2 ^ 1024 ≤ x + 2 ^ 970 := by
  have hnearest : round negative x = .infinite negative ↔ 2 ^ 1024 ≤ nearest x := by
    rw [round_eq]
    split_ifs with h
    · simp [h]
    · simp [h]
  rw [hnearest]
  rcases lt_or_ge x (2 ^ 1023) with hsmall | hlarge
  · refine iff_of_false (nearest_lt hsmall).not_ge (not_le.2 ?_)
    exact (add_lt_add_left hsmall _).trans_le two_pow_add_le
  rcases lt_or_ge x (2 ^ 1024) with hbelow | habove
  · exact le_nearest_iff hlarge hbelow
  · exact iff_of_true (le_nearest habove) (habove.trans le_self_add)

theorem round_of_lt (negative : Bool) (h : x < 2 ^ 1023) :
    round negative x = .finite negative (nearest x) := by
  rw [round_eq, if_neg (nearest_lt h).not_ge]

theorem lt_of_round_eq {negative negative' : Bool} {m : ℚ≥0}
    (h : round negative x = .finite negative' m) : m < 2 ^ 1024 := by
  rw [round_eq] at h
  split_ifs at h with hbound
  rw [PyFloat.finite.injEq] at h
  rw [← h.2]
  exact not_le.1 hbound

end Round

end PyFloat

/-! ## Reading a number -/

/-- A digit of another script as the one of ASCII. -/
def asciiDigit (c : Char) : Char :=
  match digitValue c with
  | some n => Nat.digitChar n
  | none => c

/-- Whether every underscore stands between two digits, after a digit or not. -/
def underscoresOk (afterDigit : Bool) : List Char → Bool
  | [] => true
  | c :: rest =>
    if c = '_' then
      match rest with
      | [] => false
      | d :: rest => afterDigit ∧ d.isDigit ∧ underscoresOk true rest
    else underscoresOk c.isDigit rest

/-- The exponent of a numeral, with which its text ends. -/
def readExponent : List Char → Option ℤ
  | [] => some 0
  | c :: rest =>
    let (negative, digits) := splitSign rest
    if (c = 'e' ∨ c = 'E') ∧ digits ≠ [] ∧ digits.all Char.isDigit then
      let value : ℤ := Nat.ofDigitChars 10 digits 0
      some (if negative then -value else value)
    else none

/-- The digits after a decimal point, if there is one, and the text after them. -/
def readFraction : List Char → List Char × List Char
  | '.' :: rest => (rest.takeWhile Char.isDigit, rest.dropWhile Char.isDigit)
  | rest => ([], rest)

/-- The value of a numeral without a sign: digits, perhaps with a point, and an exponent. -/
def readMagnitude (text : List Char) : Option ℚ≥0 :=
  let whole := text.takeWhile Char.isDigit
  let (fraction, rest) := readFraction (text.dropWhile Char.isDigit)
  if whole = [] ∧ fraction = [] then none
  else (readExponent rest).map fun (exponent : ℤ) =>
    Nat.ofDigitChars 10 (whole ++ fraction) 0 * 10 ^ (exponent - fraction.length)

/-- `float(text)` for a text without white space at its ends, if it is the text of a number. -/
def pyFloat (text : List Char) : Option PyFloat :=
  let ascii := text.map asciiDigit
  let (negative, body) := splitSign (ascii.filter (· ≠ '_'))
  let word := String.ofList (body.map Char.toLower)
  if ¬ underscoresOk false ascii then none
  else if word = "inf" ∨ word = "infinity" then some (.infinite negative)
  else if word = "nan" then some .nan
  else (readMagnitude body).map (PyFloat.round negative)

section Numerals

variable {c : Char} {text : List Char}

theorem asciiDigit_of_isDigit (h : c.isDigit) : asciiDigit c = c := by
  obtain ⟨n, hn, rfl⟩ := exists_digit h
  interval_cases n <;> rfl

theorem toLower_of_isDigit (h : c.isDigit) : c.toLower = c := by
  obtain ⟨n, hn, rfl⟩ := exists_digit h
  interval_cases n <;> rfl

theorem underscoresOk_of_notMem (h : '_' ∉ text) :
    ∀ afterDigit, underscoresOk afterDigit text := by
  induction text with
  | nil => exact fun _ => rfl
  | cons c text ih =>
    intro afterDigit
    rw [List.mem_cons, not_or] at h
    rw [underscoresOk.eq_def]
    simp only [if_neg (Ne.symm h.1)]
    exact ih h.2 _

theorem splitSign_of_isDigit (h : c.isDigit) : splitSign (c :: text) = (false, c :: text) := by
  unfold splitSign
  split
  · next heq =>
    rw [(List.cons.inj heq).1] at h
    exact absurd h (by decide)
  · next heq =>
    rw [(List.cons.inj heq).1] at h
    exact absurd h (by decide)
  · rfl

/-- A text that starts with a digit is not `inf` or `nan`. -/
theorem lower_ne (h : c.isDigit) {word : String} (hword : word.toList.head?.all (¬ ·.isDigit)) :
    String.ofList ((c :: text).map Char.toLower) ≠ word := by
  rintro rfl
  simp [toLower_of_isDigit h, h] at hword

theorem readMagnitude_numeral {whole tail : List Char} (hne : whole ≠ [])
    (hwhole : ∀ c ∈ whole, c.isDigit)
    (htail : tail = [] ∨ ∃ fraction, tail = '.' :: fraction ∧ ∀ c ∈ fraction, c.isDigit) :
    ∃ x, readMagnitude (whole ++ tail) = some x := by
  have hstop : tail.takeWhile Char.isDigit = [] ∧ tail.dropWhile Char.isDigit = tail := by
    rcases htail with rfl | ⟨fraction, rfl, -⟩
    · exact ⟨rfl, rfl⟩
    · exact ⟨List.takeWhile_cons_of_neg (by decide), List.dropWhile_cons_of_neg (by decide)⟩
  have hrest : (readFraction tail).2 = [] := by
    rcases htail with rfl | ⟨fraction, rfl, hfraction⟩
    · rfl
    · exact List.dropWhile_eq_nil_iff.2 hfraction
  unfold readMagnitude
  rw [List.takeWhile_append_of_pos hwhole, List.dropWhile_append_of_pos hwhole, hstop.1, hstop.2,
    List.append_nil]
  simp only [hne, false_and, if_false, hrest]
  exact ⟨_, rfl⟩

/-- Digits, perhaps with a point and digits after it, are the text of a number. -/
theorem pyFloat_numeral {whole tail : List Char} (hne : whole ≠ [])
    (hwhole : ∀ c ∈ whole, c.isDigit)
    (htail : tail = [] ∨ ∃ fraction, tail = '.' :: fraction ∧ ∀ c ∈ fraction, c.isDigit) :
    ∃ x, readMagnitude (whole ++ tail) = some x ∧
      pyFloat (whole ++ tail) = some (PyFloat.round false x) := by
  have hchars : ∀ c ∈ whole ++ tail, c.isDigit ∨ c = '.' := by
    intro c hc
    rcases List.mem_append.1 hc with hc | hc
    · exact .inl (hwhole c hc)
    · rcases htail with rfl | ⟨fraction, rfl, hfraction⟩
      · simp at hc
      · exact (List.mem_cons.1 hc).symm.imp_left (hfraction c)
  have hunderscore : ∀ c ∈ whole ++ tail, c ≠ '_' := by
    rintro c hc rfl
    rcases hchars _ hc with h | h
    · exact absurd h (by decide)
    · exact absurd h (by decide)
  have hascii : (whole ++ tail).map asciiDigit = whole ++ tail := by
    refine (List.map_congr_left fun c hc => ?_).trans (List.map_id _)
    rcases hchars c hc with h | rfl
    · exact asciiDigit_of_isDigit h
    · decide
  have hfilter : (whole ++ tail).filter (· ≠ '_') = whole ++ tail :=
    List.filter_eq_self.2 fun c hc => decide_eq_true (hunderscore c hc)
  obtain ⟨x, hx⟩ := readMagnitude_numeral hne hwhole htail
  obtain ⟨c, rest, rfl⟩ := List.exists_cons_of_ne_nil hne
  have hc : c.isDigit := hwhole c (by simp)
  refine ⟨x, hx, ?_⟩
  unfold pyFloat
  dsimp only
  rw [hascii, hfilter, List.cons_append, splitSign_of_isDigit hc]
  dsimp only
  rw [← List.cons_append,
    if_neg (not_not.2 (underscoresOk_of_notMem (fun h => hunderscore _ h rfl) false)),
    List.cons_append, if_neg (not_or.2 ⟨lower_ne hc (by decide), lower_ne hc (by decide)⟩),
    if_neg (lower_ne hc (by decide)), ← List.cons_append, hx]
  rfl

end Numerals

/-! ## Lines -/

/-- A text as a file in text mode has it: every line end is a newline. -/
def universalNewlines : List Char → List Char
  | '\r' :: '\n' :: rest => '\n' :: universalNewlines rest
  | '\r' :: rest => '\n' :: universalNewlines rest
  | c :: rest => c :: universalNewlines rest
  | [] => []

/-- The lines of a text, each with its newline. -/
def splitLines : List Char → List (List Char)
  | [] => []
  | c :: rest =>
    if c = '\n' then ['\n'] :: splitLines rest
    else match splitLines rest with
      | [] => [[c]]
      | line :: lines => (c :: line) :: lines

end OfbBench
