import OfbBench.Proofs.Matrix

/-!
# Which numbers `parse_u64` reads

A text that `parse_u64` accepts is a numeral: white space, a sign and digits, all of it
(`parseU64_cases`). Without a minus sign the value is the number written (`parseU64_plain`); with
one `strtoull` negates it in the unsigned type, and `parse_u64` accepts that as well
(`parseU64_negative`).
-/

namespace OfbBench

/-- The signs a numeral may have. -/
def signs (negative : Bool) : List (List Char) := if negative then [['-']] else [[], ['+']]

/-- White space, an optional sign (a minus sign if `negative`) and one or more digits, which write
the number `v`. -/
def Numeral (negative : Bool) (text : List Char) (v : ℕ) : Prop :=
  ∃ space sign digits, text = space ++ (sign ++ digits) ∧ (∀ c ∈ space, isCSpace c)
    ∧ sign ∈ signs negative ∧ digits ≠ [] ∧ (∀ c ∈ digits, c.isDigit)
    ∧ v = Nat.ofDigitChars 10 digits 0

/-- `parse_u64` accepts `text` exactly when it is a numeral without a minus sign of a 64-bit number.
It then stores that number, and otherwise leaves `*value` alone. -/
def ParsedExactly (text : String) (value : UInt64) : Prop :=
  (∀ v, Numeral false text.toList v → v < 2 ^ 64 →
      ∃ parsed, parseU64 text value = (0, parsed) ∧ parsed.toNat = v)
    ∧ ((¬ ∃ v < 2 ^ 64, Numeral false text.toList v) → parseU64 text value = (-1, value))

section Strtoull

variable {negative : Bool} {text digits : List Char} {v : ℕ}

theorem isDigit_not_isCSpace {c : Char} (h : c.isDigit) : isCSpace c = false := by
  unfold isCSpace
  simp only [decide_eq_false_iff_not, not_or]
  refine ⟨?_, ?_, ?_, ?_, ?_, ?_⟩ <;> rintro rfl <;> revert h <;> decide

theorem splitSign_append {sign : List Char} (hs : sign ∈ signs negative) (hne : digits ≠ [])
    (hd : ∀ c ∈ digits, c.isDigit) : splitSign (sign ++ digits) = (negative, digits) := by
  cases negative with
  | true =>
    obtain rfl : sign = ['-'] := by simpa [signs] using hs
    rfl
  | false =>
    obtain rfl | rfl : sign = [] ∨ sign = ['+'] := by simpa [signs] using hs
    · rcases digits with _ | ⟨c, digits⟩
      · exact absurd rfl hne
      have hc := hd c (by simp)
      rw [List.nil_append]
      unfold splitSign
      split
      · rename_i heq
        rw [(List.cons.inj heq).1] at hc
        simp at hc
      · rename_i heq
        rw [(List.cons.inj heq).1] at hc
        simp at hc
      · rfl
    · rfl

theorem dropWhile_sign {sign : List Char} (hs : sign ∈ signs negative) (hne : digits ≠ [])
    (hd : ∀ c ∈ digits, c.isDigit) :
    (sign ++ digits).dropWhile isCSpace = sign ++ digits := by
  have hdigits : digits.dropWhile isCSpace = digits := by
    rcases digits with _ | ⟨c, digits⟩
    · rfl
    · rw [List.dropWhile_cons_of_neg]
      rw [isDigit_not_isCSpace (hd c (by simp))]
      decide
  have hsign : ∀ c, (c = '-' ∨ c = '+') → isCSpace c = false := by
    rintro c (rfl | rfl) <;> decide
  cases negative with
  | true =>
    obtain rfl : sign = ['-'] := by simpa [signs] using hs
    exact List.dropWhile_cons_of_neg (by decide)
  | false =>
    obtain rfl | rfl : sign = [] ∨ sign = ['+'] := by simpa [signs] using hs
    · exact hdigits
    · exact List.dropWhile_cons_of_neg (by decide)

/-- What `strtoull` makes of the parts of a numeral. -/
theorem Numeral.split (h : Numeral negative text v) :
    ∃ digits, splitSign (text.dropWhile isCSpace) = (negative, digits) ∧ digits ≠ []
      ∧ digits.takeWhile Char.isDigit = digits ∧ digits.dropWhile Char.isDigit = []
      ∧ v = Nat.ofDigitChars 10 digits 0 := by
  obtain ⟨space, sign, digits, rfl, hspace, hsign, hne, hd, hv⟩ := h
  refine ⟨digits, ?_, hne, List.takeWhile_eq_self_iff.2 hd, List.dropWhile_eq_nil_iff.2 hd, hv⟩
  rw [List.dropWhile_append_of_pos hspace, dropWhile_sign hsign hne hd,
    splitSign_append hsign hne hd]

theorem Numeral.unique {negative' : Bool} {v' : ℕ} (h : Numeral negative text v)
    (h' : Numeral negative' text v') : negative = negative' ∧ v = v' := by
  obtain ⟨digits, hs, -, -, -, rfl⟩ := h.split
  obtain ⟨digits', hs', -, -, -, rfl⟩ := h'.split
  obtain ⟨rfl, rfl⟩ := Prod.mk.inj (hs.symm.trans hs')
  exact ⟨rfl, rfl⟩

theorem strtoull_numeral (h : Numeral negative text v) :
    strtoull text = if 2 ^ 64 ≤ v then ⟨18446744073709551615, [], true⟩
      else ⟨if negative then 0 - UInt64.ofNat v else UInt64.ofNat v, [], false⟩ := by
  obtain ⟨digits, hs, hne, htake, hdrop, rfl⟩ := h.split
  unfold strtoull
  rw [hs]
  simp only [htake, hdrop, if_neg hne]

theorem splitSign_eq (body : List Char) :
    ∃ sign ∈ signs (splitSign body).1, body = sign ++ (splitSign body).2 := by
  unfold splitSign
  split
  · exact ⟨['-'], by simp [signs], rfl⟩
  · exact ⟨['+'], by simp [signs], rfl⟩
  · exact ⟨[], by simp [signs], rfl⟩

/-- A text that `strtoull` reads to its end is a numeral. -/
theorem numeral_of_strtoull (hne : text ≠ []) (h : (strtoull text).rest = []) :
    ∃ negative v, Numeral negative text v := by
  have hspace : ∀ c ∈ text.takeWhile isCSpace, isCSpace c := fun c hc => List.mem_takeWhile_imp hc
  obtain ⟨sign, hsign, hbody⟩ := splitSign_eq (text.dropWhile isCSpace)
  unfold strtoull at h
  rcases hs : splitSign (text.dropWhile isCSpace) with ⟨negative, body⟩
  rw [hs] at h hsign hbody
  simp only [] at h hsign hbody
  by_cases hd : body.takeWhile Char.isDigit = []
  · rw [if_pos hd] at h
    exact absurd h hne
  · have hrest : body.dropWhile Char.isDigit = [] := by
      rw [if_neg hd] at h
      split_ifs at h <;> exact h
    have hdigits := List.dropWhile_eq_nil_iff.1 hrest
    rw [List.takeWhile_eq_self_iff.2 hdigits] at hd
    refine ⟨negative, _, text.takeWhile isCSpace, sign, body, ?_, hspace, hsign, hd, hdigits, rfl⟩
    rw [← hbody, List.takeWhile_append_dropWhile]

end Strtoull

section ParseU64

variable {negative : Bool} {text : String} {value : UInt64} {v : ℕ}

theorem Numeral.ne_empty (h : Numeral negative text.toList v) : text ≠ "" := by
  rintro rfl
  obtain ⟨space, sign, digits, heq, -, -, hne, -⟩ := h
  have hnil : space ++ (sign ++ digits) = [] := heq.symm
  simp only [List.append_eq_nil_iff] at hnil
  exact hne hnil.2.2

theorem parseU64_numeral (h : Numeral negative text.toList v) :
    parseU64 text value = if 2 ^ 64 ≤ v then (-1, value)
      else (0, if negative then 0 - UInt64.ofNat v else UInt64.ofNat v) := by
  unfold parseU64
  rw [strtoull_numeral h]
  by_cases hv : 2 ^ 64 ≤ v
  · rw [if_pos hv, if_pos hv]
    simp
  · rw [if_neg hv, if_neg hv]
    simp [h.ne_empty]

/-- What `parse_u64` accepts is a numeral. -/
theorem parseU64_cases (text : String) (value : UInt64) :
    parseU64 text value = (-1, value) ∨ ∃ negative, ∃ v < 2 ^ 64, Numeral negative text.toList v
      ∧ parseU64 text value
        = (0, if negative then 0 - UInt64.ofNat v else UInt64.ofNat v) := by
  by_cases h : text ≠ "" ∧ (strtoull text.toList).rest = []
  · obtain ⟨negative, v, hv⟩ := numeral_of_strtoull (by simpa using h.1) h.2
    have hparse := @parseU64_numeral negative text value v hv
    by_cases hlt : 2 ^ 64 ≤ v
    · rw [if_pos hlt] at hparse
      exact .inl hparse
    · rw [if_neg hlt] at hparse
      exact .inr ⟨negative, v, not_le.1 hlt, hv, hparse⟩
  · left
    unfold parseU64
    rw [if_pos]
    tauto

/-- Numbers are parsed exactly, but for those with a minus sign that fit. -/
theorem parsedExactly_iff (text : String) (value : UInt64) :
    ParsedExactly text value ↔ ¬ ∃ v < 2 ^ 64, Numeral true text.toList v := by
  constructor
  · rintro ⟨-, hreject⟩ ⟨v, hv, hneg⟩
    have hplain : ¬ ∃ v < 2 ^ 64, Numeral false text.toList v := by
      rintro ⟨v', -, hplain⟩
      exact Bool.false_ne_true (hplain.unique hneg).1
    have hparse := hreject hplain
    rw [parseU64_numeral hneg, if_neg (not_le.2 hv)] at hparse
    simp at hparse
  · intro hneg
    constructor
    · intro v hplain hv
      refine ⟨UInt64.ofNat v, ?_, ?_⟩
      · rw [parseU64_numeral hplain, if_neg (not_le.2 hv)]
        rfl
      · rw [UInt64.toNat_ofNat']
        exact Nat.mod_eq_of_lt hv
    · intro hplain
      obtain h | ⟨negative, v, hv, hnum, -⟩ := parseU64_cases text value
      · exact h
      · cases negative with
        | true => exact absurd ⟨v, hv, hnum⟩ hneg
        | false => exact absurd ⟨v, hv, hnum⟩ hplain

end ParseU64

/-! ## Option values -/

/-- The options whose value is a number; the TLS program has no `--aad-size`. -/
def numericOptions : List String := ["--size", "--aad-size", "--samples", "--sample-ms"]

/-- What an option loop that goes on after `arg` and `value` has checked. -/
structure Accepted (arg value : String) : Prop where
  parsed : arg ∈ numericOptions → (parseU64 value 0).1 = 0
  samples : arg = "--samples" → numberOf value ≤ uintMax
  sampleMs : arg = "--sample-ms" → numberOf value ≤ uint64Max / 1000000

/-- The value in effect of an option, if it is given, is a numeral without a minus sign, of a number
that `used` holds of. -/
def AsWritten (pairs : List (String × String)) (name : String) (used : ℕ → Prop) : Prop :=
  ∀ value, lastValue name pairs = some value → ∃ v, Numeral false value.toList v ∧ used v

/-- The value in effect of an option is not a numeral with a minus sign that fits in 64 bits. -/
def NotNegative (pairs : List (String × String)) (name : String) : Prop :=
  ∀ value, lastValue name pairs = some value → ¬ ∃ v < 2 ^ 64, Numeral true value.toList v

section Options

variable {pairs : List (String × String)} {name value : String}

theorem accepted_other {arg : String} (h : arg ∉ numericOptions) : Accepted arg value := by
  refine ⟨fun h' => absurd h' h, ?_, ?_⟩
  · rintro rfl
    exact absurd (by decide) h
  · rintro rfl
    exact absurd (by decide) h

theorem accepted_number {arg : String} (h : (parseU64 value 0).1 = 0) (hs : arg ≠ "--samples")
    (hm : arg ≠ "--sample-ms") : Accepted arg value :=
  ⟨fun _ => h, fun harg => absurd harg hs, fun harg => absurd harg hm⟩

theorem accepted_samples (h : (parseU64 value 0).1 = 0) (hle : numberOf value ≤ uintMax) :
    Accepted "--samples" value :=
  ⟨fun _ => h, fun _ => hle, by simp⟩

theorem accepted_sampleMs (h : (parseU64 value 0).1 = 0)
    (hle : numberOf value ≤ uint64Max / 1000000) : Accepted "--sample-ms" value :=
  ⟨fun _ => h, by simp, fun _ => hle⟩

theorem mem_of_lastValue (h : lastValue name pairs = some value) : (name, value) ∈ pairs := by
  unfold lastValue at h
  rw [Option.map_eq_some_iff] at h
  obtain ⟨⟨name', value'⟩, hlast, rfl⟩ := h
  have hmem := List.mem_filter.1 (List.mem_of_getLast? hlast)
  obtain rfl : name' = name := of_decide_eq_true hmem.2
  exact hmem.1

/-- An option loop that goes on only after what `P` holds of has checked it of every pair. -/
theorem forall_optionPairs {O : Type} {parse : O → List String → Parsed O}
    {P : String → String → Prop}
    (hstep : ∀ options args options', parse options args = .run options' →
      args = [] ∨ ∃ arg value rest next, args = arg :: value :: rest ∧ P arg value ∧
        parse next rest = .run options')
    {options options' : O} {args : List String} (h : parse options args = .run options') :
    ∀ pair ∈ optionPairs args, P pair.1 pair.2 := by
  fun_induction optionPairs args generalizing options with
  | case4 arg harg value rest ih =>
    obtain hargs | ⟨_, _, _, next, hargs, hP, hrest⟩ := hstep _ _ _ h
    · cases hargs
    cases hargs
    intro pair hpair
    rcases List.mem_cons.1 hpair with rfl | hpair
    · exact hP
    · exact ih hrest pair hpair
  | _ => simp

/-- The number in effect of an option that the loop accepted is the one that was written, unless
that has a minus sign. -/
theorem asWritten_iff {used : ℕ → Prop} (hname : name ∈ numericOptions)
    (haccepted : ∀ pair ∈ pairs, Accepted pair.1 pair.2)
    (hused : ∀ value, lastValue name pairs = some value → Accepted name value →
      used (numberOf value).toNat) :
    AsWritten pairs name used ↔ NotNegative pairs name := by
  constructor
  · rintro h value hvalue ⟨v, -, hneg⟩
    obtain ⟨v', hplain, -⟩ := h value hvalue
    exact Bool.false_ne_true (hplain.unique hneg).1
  · intro h value hvalue
    have hacc := haccepted _ (mem_of_lastValue hvalue)
    obtain hfail | ⟨negative, v, hv, hnum, hparse⟩ := parseU64_cases value 0
    · have := hacc.parsed hname
      rw [hfail] at this
      simp at this
    cases negative with
    | true => exact absurd ⟨v, hv, hnum⟩ (h value hvalue)
    | false =>
      have hnumber : (numberOf value).toNat = v := by
        unfold numberOf
        rw [hparse]
        exact (UInt64.toNat_ofNat').trans (Nat.mod_eq_of_lt hv)
      exact ⟨v, hnum, hnumber ▸ hused value hvalue hacc⟩

theorem toNat_samples {n : UInt64} (h : n ≤ uintMax) : n.toUInt32.toNat = n.toNat := by
  have hle : n.toNat ≤ 4294967295 := UInt64.le_iff_toNat_le.1 h
  rw [UInt64.toNat_toUInt32, Nat.mod_eq_of_lt (by omega)]

theorem toNat_sampleMs {n : UInt64} (h : n ≤ uint64Max / 1000000) :
    (n * 1000000).toNat = 1000000 * n.toNat := by
  have hmul := @toNat_mul_of_le_div n 1000000 (by decide) h
  rw [hmul.2, show (1000000 : UInt64).toNat = 1000000 from rfl, Nat.mul_comm]

theorem number_asWritten {number : UInt64} (hname : name ∈ numericOptions)
    (hacc : ∀ pair ∈ pairs, Accepted pair.1 pair.2)
    (h : ∀ value, lastValue name pairs = some value → number = numberOf value) :
    AsWritten pairs name (fun v => number.toNat = v) ↔ NotNegative pairs name := by
  refine asWritten_iff hname hacc fun value hvalue _ => ?_
  rw [h value hvalue]

theorem samples_asWritten {samples : UInt32} (hacc : ∀ pair ∈ pairs, Accepted pair.1 pair.2)
    (h : ∀ value, lastValue "--samples" pairs = some value →
      samples = (numberOf value).toUInt32) :
    AsWritten pairs "--samples" (fun v => samples.toNat = v) ↔ NotNegative pairs "--samples" := by
  refine asWritten_iff (by decide) hacc fun value hvalue haccepted => ?_
  rw [h value hvalue, toNat_samples (haccepted.samples rfl)]

theorem sampleMs_asWritten {sampleNs : UInt64} (hacc : ∀ pair ∈ pairs, Accepted pair.1 pair.2)
    (h : ∀ value, lastValue "--sample-ms" pairs = some value →
      sampleNs = numberOf value * 1000000) :
    AsWritten pairs "--sample-ms" (fun v => sampleNs.toNat = 1000000 * v) ↔
      NotNegative pairs "--sample-ms" := by
  refine asWritten_iff (by decide) hacc fun value hvalue haccepted => ?_
  rw [h value hvalue, toNat_sampleMs (haccepted.sampleMs rfl)]

end Options

namespace Aead

/-- Every number in the options is the one that was written. -/
structure NumbersAsWritten (options : Options) (pairs : List (String × String)) : Prop where
  size : AsWritten pairs "--size" fun v => options.size.toNat = v
  aadSize : AsWritten pairs "--aad-size" fun v => options.aadSize.toNat = v
  samples : AsWritten pairs "--samples" fun v => options.samples.toNat = v
  sampleMs : AsWritten pairs "--sample-ms" fun v => options.sampleNs.toNat = 1000000 * v

theorem parseArgs_accepted {options options' : Options} {args : List String}
    (h : parseArgs options args = .run options') :
    ∀ pair ∈ optionPairs args, Accepted pair.1 pair.2 := by
  refine forall_optionPairs (fun options args options' h => ?_) h
  have hrc : ∀ {value rc parsed}, parseU64 value 0 = (rc, parsed) →
      (parseU64 value 0).1 = rc ∧ numberOf value = parsed :=
    fun hp => ⟨congrArg Prod.fst hp, congrArg Prod.snd hp⟩
  revert h
  fun_cases parseArgs options args with
  | case1 => exact fun _ => .inl rfl
  | case5 value rest hh hl =>
    exact fun h => .inr ⟨_, _, _, _, rfl, accepted_other (by decide), h⟩
  | case6 value rest hh hl =>
    exact fun h => .inr ⟨_, _, _, _, rfl, accepted_other (by decide), h⟩
  | case7 value rest hh hl =>
    exact fun h => .inr ⟨_, _, _, _, rfl, accepted_other (by decide), h⟩
  | case9 value rest rc parsed hp hok hh hl =>
    intro h
    obtain ⟨h0, -⟩ := hrc hp
    push Not at hok
    exact .inr ⟨_, _, _, _, rfl, accepted_number (h0.trans hok.1) (by decide) (by decide), h⟩
  | case11 value rest rc parsed hp hok hh hl =>
    intro h
    obtain ⟨h0, -⟩ := hrc hp
    push Not at hok
    exact .inr ⟨_, _, _, _, rfl, accepted_number (h0.trans hok.1) (by decide) (by decide), h⟩
  | case13 value rest rc parsed hp hok hh hl =>
    intro h
    obtain ⟨h0, hn⟩ := hrc hp
    push Not at hok
    have hle := UInt64.not_lt.1 hok.2.2
    exact .inr ⟨_, _, _, _, rfl, accepted_samples (h0.trans hok.1) (hn ▸ hle), h⟩
  | case15 value rest rc parsed hp hok hh hl =>
    intro h
    obtain ⟨h0, hn⟩ := hrc hp
    push Not at hok
    have hle := UInt64.not_lt.1 hok.2.2
    exact .inr ⟨_, _, _, _, rfl, accepted_sampleMs (h0.trans hok.1) (hn ▸ hle), h⟩
  | _ => exact fun h => by cases h

theorem numbersAsWritten_iff {options : Options} {args : List String}
    (h : parseArgs defaultOptions args = .run options) :
    NumbersAsWritten options (optionPairs args)
      ↔ ∀ name ∈ numericOptions, NotNegative (optionPairs args) name := by
  have hacc := parseArgs_accepted h
  obtain ⟨hopt, -, -⟩ := parseArgs_read h
  have hsize : AsWritten (optionPairs args) "--size" (fun v => options.size.toNat = v)
      ↔ NotNegative (optionPairs args) "--size" := by
    refine number_asWritten (by decide) hacc fun value hvalue => ?_
    rw [hopt]
    simp [readOptions, hvalue]
  have haad : AsWritten (optionPairs args) "--aad-size" (fun v => options.aadSize.toNat = v)
      ↔ NotNegative (optionPairs args) "--aad-size" := by
    refine number_asWritten (by decide) hacc fun value hvalue => ?_
    rw [hopt]
    simp [readOptions, hvalue]
  have hsamples : AsWritten (optionPairs args) "--samples" (fun v => options.samples.toNat = v)
      ↔ NotNegative (optionPairs args) "--samples" := by
    refine samples_asWritten hacc fun value hvalue => ?_
    rw [hopt]
    simp [readOptions, hvalue]
  have hms : AsWritten (optionPairs args) "--sample-ms"
      (fun v => options.sampleNs.toNat = 1000000 * v)
      ↔ NotNegative (optionPairs args) "--sample-ms" := by
    refine sampleMs_asWritten hacc fun value hvalue => ?_
    rw [hopt]
    simp [readOptions, hvalue]
  simp only [numericOptions, List.forall_mem_cons, List.not_mem_nil, false_implies,
    implies_true, and_true]
  rw [← hsize, ← haad, ← hsamples, ← hms]
  constructor
  · rintro ⟨h1, h2, h3, h4⟩
    exact ⟨h1, h2, h3, h4⟩
  · rintro ⟨h1, h2, h3, h4⟩
    exact ⟨h1, h2, h3, h4⟩

end Aead

namespace Tls

/-- Every number in the options is the one that was written. -/
structure NumbersAsWritten (options : Options) (pairs : List (String × String)) : Prop where
  size : AsWritten pairs "--size" fun v => options.size.toNat = v
  samples : AsWritten pairs "--samples" fun v => options.samples.toNat = v
  sampleMs : AsWritten pairs "--sample-ms" fun v => options.sampleNs.toNat = 1000000 * v

theorem parseArgs_accepted {options options' : Options} {args : List String}
    (h : parseArgs options args = .run options') :
    ∀ pair ∈ optionPairs args, Accepted pair.1 pair.2 ∧ pair.1 ≠ "--aad-size" := by
  refine forall_optionPairs (P := fun arg value => Accepted arg value ∧ arg ≠ "--aad-size")
    (fun options args options' h => ?_) h
  have hrc : ∀ {value rc parsed}, parseU64 value 0 = (rc, parsed) →
      (parseU64 value 0).1 = rc ∧ numberOf value = parsed :=
    fun hp => ⟨congrArg Prod.fst hp, congrArg Prod.snd hp⟩
  revert h
  fun_cases parseArgs options args with
  | case1 => exact fun _ => .inl rfl
  | case5 value rest hh hl =>
    exact fun h => .inr ⟨_, _, _, _, rfl, ⟨accepted_other (by decide), by decide⟩, h⟩
  | case6 value rest hh hl =>
    exact fun h => .inr ⟨_, _, _, _, rfl, ⟨accepted_other (by decide), by decide⟩, h⟩
  | case7 value rest hh hl =>
    exact fun h => .inr ⟨_, _, _, _, rfl, ⟨accepted_other (by decide), by decide⟩, h⟩
  | case8 value rest hh hl =>
    exact fun h => .inr ⟨_, _, _, _, rfl, ⟨accepted_other (by decide), by decide⟩, h⟩
  | case9 value rest hh hl =>
    exact fun h => .inr ⟨_, _, _, _, rfl, ⟨accepted_other (by decide), by decide⟩, h⟩
  | case11 value rest rc parsed hp hok hh hl =>
    intro h
    obtain ⟨h0, -⟩ := hrc hp
    push Not at hok
    exact .inr ⟨_, _, _, _, rfl,
      ⟨accepted_number (h0.trans hok.1) (by decide) (by decide), by decide⟩, h⟩
  | case13 value rest rc parsed hp hok hh hl =>
    intro h
    obtain ⟨h0, hn⟩ := hrc hp
    push Not at hok
    have hle := UInt64.not_lt.1 hok.2.2
    exact .inr ⟨_, _, _, _, rfl, ⟨accepted_samples (h0.trans hok.1) (hn ▸ hle), by decide⟩, h⟩
  | case15 value rest rc parsed hp hok hh hl =>
    intro h
    obtain ⟨h0, hn⟩ := hrc hp
    push Not at hok
    have hle := UInt64.not_lt.1 hok.2.2
    exact .inr ⟨_, _, _, _, rfl, ⟨accepted_sampleMs (h0.trans hok.1) (hn ▸ hle), by decide⟩, h⟩
  | _ => exact fun h => by cases h

theorem numbersAsWritten_iff {build : Build} {options : Options} {args : List String}
    (h : parseArgs (defaultOptions build) args = .run options) :
    NumbersAsWritten options (optionPairs args)
      ↔ ∀ name ∈ numericOptions, NotNegative (optionPairs args) name := by
  have hacc := parseArgs_accepted h
  have hacc' : ∀ pair ∈ optionPairs args, Accepted pair.1 pair.2 := fun pair hp => (hacc pair hp).1
  obtain ⟨hopt, -, -⟩ := parseArgs_read h
  have haad : NotNegative (optionPairs args) "--aad-size" := fun value hvalue =>
    absurd rfl (hacc _ (mem_of_lastValue hvalue)).2
  have hsize : AsWritten (optionPairs args) "--size" (fun v => options.size.toNat = v)
      ↔ NotNegative (optionPairs args) "--size" := by
    refine number_asWritten (by decide) hacc' fun value hvalue => ?_
    rw [hopt]
    simp [readOptions, hvalue]
  have hsamples : AsWritten (optionPairs args) "--samples" (fun v => options.samples.toNat = v)
      ↔ NotNegative (optionPairs args) "--samples" := by
    refine samples_asWritten hacc' fun value hvalue => ?_
    rw [hopt]
    simp [readOptions, hvalue]
  have hms : AsWritten (optionPairs args) "--sample-ms"
      (fun v => options.sampleNs.toNat = 1000000 * v)
      ↔ NotNegative (optionPairs args) "--sample-ms" := by
    refine sampleMs_asWritten hacc' fun value hvalue => ?_
    rw [hopt]
    simp [readOptions, hvalue]
  simp only [numericOptions, List.forall_mem_cons, List.not_mem_nil, false_implies,
    implies_true, and_true]
  rw [← hsize, ← hsamples, ← hms]
  constructor
  · rintro ⟨h1, h2, h3⟩
    exact ⟨h1, haad, h2, h3⟩
  · rintro ⟨h1, -, h2, h3⟩
    exact ⟨h1, h2, h3⟩

end Tls

/-- `parse_u64` reads exactly the number written, unless that has a minus sign and fits in 64 bits;
so in both programs the numbers in effect are those written exactly if none of them has. -/
theorem numbers_asWritten (text : String) (value : UInt64) (args : List String) :
    (ParsedExactly text value ↔ ¬ ∃ v < 2 ^ 64, Numeral true text.toList v)
    ∧ (∀ options, Aead.parseArgs Aead.defaultOptions args = .run options →
        (Aead.NumbersAsWritten options (optionPairs args)
          ↔ ∀ name ∈ numericOptions, NotNegative (optionPairs args) name))
    ∧ ∀ build options, Tls.parseArgs (Tls.defaultOptions build) args = .run options →
        (Tls.NumbersAsWritten options (optionPairs args)
          ↔ ∀ name ∈ numericOptions, NotNegative (optionPairs args) name) :=
  ⟨parsedExactly_iff text value, fun _ h => Aead.numbersAsWritten_iff h,
    fun _ _ h => Tls.numbersAsWritten_iff h⟩

theorem not_numeral_true {text : List Char} (h : (splitSign (text.dropWhile isCSpace)).1 = false) :
    ¬ ∃ v < 2 ^ 64, Numeral true text v := by
  rintro ⟨v, -, hnum⟩
  obtain ⟨digits, hs, -⟩ := hnum.split
  rw [hs] at h
  simp at h

theorem not_numeral_false {text : List Char} (h : (splitSign (text.dropWhile isCSpace)).1 = true) :
    ¬ ∃ v < 2 ^ 64, Numeral false text v := by
  rintro ⟨v, -, hnum⟩
  obtain ⟨digits, hs, -⟩ := hnum.split
  rw [hs] at h
  simp at h

theorem numbers_asWritten_size :
    Aead.NumbersAsWritten { Aead.defaultOptions with size := 64, sizeSet := true }
      [("--size", " +64")] := by
  refine ((numbers_asWritten " +64" 0 ["--size", " +64"]).2.1 _ rfl).2 fun name _ value hvalue => ?_
  have hmem : (name, value) ∈ [("--size", " +64")] := mem_of_lastValue hvalue
  obtain ⟨rfl, rfl⟩ : name = "--size" ∧ value = " +64" := by simpa using hmem
  exact not_numeral_true (by decide)

/-- `--samples -18446744073709551609` asks for 7 samples. -/
theorem negative_samples :
    ¬ ParsedExactly "-18446744073709551609" 0
      ∧ Aead.parseArgs Aead.defaultOptions ["--samples", "-18446744073709551609"]
        = .run { Aead.defaultOptions with samples := 7 } := by
  constructor
  · rintro ⟨-, hreject⟩
    have h := hreject (not_numeral_false (by decide))
    exact absurd (congrArg Prod.fst h) (by decide)
  · rfl

end OfbBench
