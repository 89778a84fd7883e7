import OfbBench.Proofs.ProfileNames

/-!
# Which names are read as stat files

`parse_case` cuts nine characters off a name without looking at them, and reads the rest as a stem;
the pattern allows a line break after it and digits of any script in it. So a name that is accepted
may be that of another file (`Misread`), and those are the only names that are read wrongly
(`acceptsStatOnly_iff`). Of the files next to a stat file, the one with the counter mode is accepted
when its size has five digits or more, without the last four of them (`parseCase_mode`).
-/

namespace OfbBench.Profiles

open Regex

/-- The name of the stat file of a case, its size with zeros before it. -/
def Case.statName (case : Case) (zeros : ℕ) : String :=
  case.backend ++ "__" ++ case.architecture ++ "__" ++ case.algorithm ++ "__" ++ case.operation
    ++ "__" ++ String.ofList (List.replicate zeros '0') ++ toString case.size ++ ".stat.csv"

/-- The name is that of the stat file of the case that is returned, or it is refused. -/
def AcceptsStatOnly (path : Path) : Prop :=
  (∃ case zeros, parseCase path = .ok case ∧ path.name = case.statName zeros)
    ∨ ∃ text, parseCase path = .error (.valueError text)

/-- The parts of a text the pattern matches; a line break may come after them. -/
structure StemParts where
  backend : List Char
  architecture : List Char
  algorithm : List Char
  operation : List Char
  digits : List Char
  rest : List Char
  backend_part : Part backend
  architecture_part : Part architecture
  algorithm_part : Part algorithm
  is_ending : IsEnding operation digits
  rest_eq : rest = [] ∨ rest = ['\n']

namespace StemParts

variable (p : StemParts)

def text : List Char :=
  p.backend ++ (['_', '_'] ++ (p.architecture ++ (['_', '_'] ++ (p.algorithm
    ++ (ending p.operation p.digits ++ p.rest)))))

def captures : Captures :=
  [("backend", p.backend), ("architecture", p.architecture), ("algorithm", p.algorithm),
    ("operation", p.operation), ("size", p.digits)]

theorem text_eq : p.text = (p.backend ++ (['_', '_'] ++ (p.architecture ++ (['_', '_'] ++
    (p.algorithm ++ (['_', '_'] ++ (p.operation ++ ['_']))))))) ++ '_' :: (p.digits ++ p.rest) := by
  simp [text, ending]

end StemParts

/-- A name that is accepted and is not that of a stat file: the nine characters after its parts are
not `.stat.csv`, or a line break stands before them, or its size has a digit of another script. -/
def Misread (name : String) : Prop :=
  ∃ (p : StemParts) (tail : List Char), name.toList = p.text ++ tail
    ∧ tail.length = statSuffix.length
    ∧ (tail ≠ statSuffix.toList ∨ p.rest ≠ [] ∨ ∃ c ∈ p.digits, ¬ c.isDigit)

/-! ## What the pattern matches -/

section Pattern

variable {s : List Char} {m : Captures × List Char}

theorem mem_casePattern :
    m ∈ casePattern.run s ↔ ∃ p : StemParts, s = p.text ∧ m = (p.captures, p.rest) := by
  rw [casePattern_eq]
  constructor
  · intro h
    obtain ⟨backend, y, n, rfl, hne, hdot, hn, rfl⟩ := mem_run_plus_seq.1 h
    obtain ⟨architecture, algorithm, operation, digits, harchitecture, halgorithm, hending, hrest,
      rfl, hcaptures⟩ := mem_architectureRest.1 hn
    refine ⟨⟨backend, architecture, algorithm, operation, digits, n.2, ⟨hne, forall_dot.1 hdot⟩,
      harchitecture, halgorithm, hending, hrest⟩, rfl, ?_⟩
    rw [hcaptures]
    rfl
  · rintro ⟨p, rfl, rfl⟩
    have hn := (@mem_architectureRest _ (p.captures.tail, p.rest)).2
      ⟨p.architecture, p.algorithm, p.operation, p.digits, p.architecture_part, p.algorithm_part,
        p.is_ending, p.rest_eq, rfl, rfl⟩
    exact mem_run_plus_seq.2 ⟨p.backend, _, _, rfl, p.backend_part.ne_nil,
      forall_dot.2 p.backend_part.newline, hn, rfl⟩

theorem first_casePattern_eq_none :
    casePattern.first s = none ↔ ¬ ∃ p : StemParts, s = p.text := by
  unfold Regex.first
  rw [Option.map_eq_none_iff, List.head?_eq_none_iff, List.eq_nil_iff_forall_not_mem]
  constructor
  · rintro h ⟨p, hs⟩
    exact h _ (mem_casePattern.2 ⟨p, hs, rfl⟩)
  · intro h m hm
    obtain ⟨p, hs, -⟩ := mem_casePattern.1 hm
    exact h ⟨p, hs⟩

end Pattern

/-! ## What is accepted -/

section Accepted

variable {path : Path} {case : Case}

theorem parseCase_eq_error : (∃ text, parseCase path = .error (.valueError text)) ↔
    ¬ ∃ p : StemParts, (stemOf path.name).toList = p.text := by
  rw [← first_casePattern_eq_none]
  unfold parseCase
  cases casePattern.first (stemOf path.name).toList with
  | none => simp
  | some captures => simp

theorem parts_of_parseCase (h : parseCase path = .ok case) : ∃ p : StemParts,
    (stemOf path.name).toList = p.text ∧ case = Case.ofGroups p.captures := by
  unfold parseCase at h
  cases hfirst : casePattern.first (stemOf path.name).toList with
  | none => simp [hfirst] at h
  | some captures =>
    rw [hfirst] at h
    obtain rfl := Except.ok.inj h
    obtain ⟨rest, hm⟩ := exists_of_first hfirst
    obtain ⟨p, hs, hm⟩ := mem_casePattern.1 hm
    exact ⟨p, hs, by rw [(Prod.mk.inj hm).1]⟩

theorem parseCase_ok_or_error (path : Path) :
    (∃ case, parseCase path = .ok case) ∨ ∃ text, parseCase path = .error (.valueError text) := by
  unfold parseCase
  cases casePattern.first (stemOf path.name).toList with
  | none => exact .inr ⟨_, rfl⟩
  | some captures => exact .inl ⟨_, rfl⟩

/-- The name of the case of some parts, when zeros before its size make up their digits. -/
theorem toList_statName (p : StemParts) (zeros : ℕ) :
    ((Case.ofGroups p.captures).statName zeros).toList
      = p.backend ++ (['_', '_'] ++ (p.architecture ++ (['_', '_'] ++ (p.algorithm
        ++ ending p.operation (List.replicate zeros '0' ++ Nat.toDigits 10 (pyInt p.digits))))))
        ++ statSuffix.toList := by
  have hseparator : "__".toList = ['_', '_'] := rfl
  unfold Case.statName ending statSuffix
  simp [Case.ofGroups, StemParts.captures, group, List.lookup_cons, hseparator]

theorem stemOf_of_toList {name : String} {before tail : List Char}
    (h : name.toList = before ++ tail) (htail : tail.length = statSuffix.length) :
    (stemOf name).toList = before := by
  have hlength : name.length = before.length + statSuffix.length := by
    rw [← String.length_toList, h, List.length_append, htail]
  unfold stemOf
  rw [String.toList_ofList, h, hlength, Nat.add_sub_cancel, List.take_left]

/-- A stem that is a match has nine characters after it in the name. -/
theorem exists_tail {name : String} {p : StemParts} (h : (stemOf name).toList = p.text) :
    ∃ tail : List Char, name.toList = p.text ++ tail ∧ tail.length = statSuffix.length := by
  have hpos : 0 < p.text.length := by
    have := List.length_pos_iff.2 p.backend_part.ne_nil
    unfold StemParts.text
    rw [List.length_append]
    omega
  unfold stemOf at h
  rw [String.toList_ofList] at h
  rw [← h, List.length_take, String.length_toList] at hpos
  refine ⟨name.toList.drop (name.length - statSuffix.length), ?_, ?_⟩
  · rw [← h, List.take_append_drop]
  · rw [List.length_drop, String.length_toList]
    omega

/-- The digits a text ends with are those of its size, and no line break comes after them. -/
theorem digits_of_text_eq {p : StemParts} {before digits : List Char} (hne : digits ≠ [])
    (hdigits : ∀ c ∈ digits, c.isDigit) (h : before ++ '_' :: digits = p.text) :
    p.digits = digits ∧ p.rest = [] := by
  have hpy : ∀ c ∈ digits, isPyDigit c := fun c hc => isPyDigit_of_isDigit (hdigits c hc)
  have htake := congrArg (fun text => text.reverse.takeWhile isPyDigit) h
  simp only [p.text_eq, takeWhile_reverse hpy] at htake
  rcases p.rest_eq with hrest | hrest
  · rw [hrest, List.append_nil, takeWhile_reverse p.is_ending.digits, List.reverse_inj] at htake
    exact ⟨htake.symm, hrest⟩
  · rw [hrest, ← List.cons_append, ← List.append_assoc, List.reverse_append,
      List.reverse_singleton, List.singleton_append, List.takeWhile_cons_of_neg (by decide),
      List.reverse_eq_nil_iff] at htake
    exact absurd htake hne

/-- A numeral with zeros before it consists of decimal digits. -/
theorem isDigit_of_mem_numeral {zeros n : ℕ} :
    ∀ c ∈ List.replicate zeros '0' ++ Nat.toDigits 10 n, c.isDigit := by
  intro c hc
  rcases List.mem_append.1 hc with hc | hc
  · rw [List.eq_of_mem_replicate hc]
    rfl
  · exact isDigit_of_mem_toDigits c hc

theorem not_misread_of_statName {zeros : ℕ} (hcase : parseCase path = .ok case)
    (hname : path.name = case.statName zeros) : ¬ Misread path.name := by
  rintro ⟨p, tail, htext, htail, hwrong⟩
  obtain ⟨q, -, rfl⟩ := parts_of_parseCase hcase
  rw [hname, toList_statName] at htext
  obtain ⟨hstem, hsuffix⟩ := List.append_inj' htext (by rw [htail, String.length_toList])
  obtain ⟨hdigits, hrest⟩ := @digits_of_text_eq p (q.backend ++ (['_', '_'] ++ (q.architecture
      ++ (['_', '_'] ++ (q.algorithm ++ (['_', '_'] ++ (q.operation ++ ['_'])))))))
    (List.replicate zeros '0' ++ Nat.toDigits 10 (pyInt q.digits)) (by simp [Nat.toDigits_ne_nil])
    isDigit_of_mem_numeral (by rw [← hstem]; simp [ending])
  rcases hwrong with hne | hne | ⟨c, hc, hnot⟩
  · exact hne hsuffix.symm
  · exact hne hrest
  · rw [hdigits] at hc
    exact hnot (isDigit_of_mem_numeral c hc)

theorem exists_statName (hcase : parseCase path = .ok case) (h : ¬ Misread path.name) :
    ∃ zeros, path.name = case.statName zeros := by
  obtain ⟨p, hstem, rfl⟩ := parts_of_parseCase hcase
  obtain ⟨tail, htext, htail⟩ := exists_tail hstem
  have hright : tail = statSuffix.toList ∧ p.rest = [] ∧ ∀ c ∈ p.digits, c.isDigit := by
    refine ⟨?_, ?_, fun c hc => ?_⟩
    · by_contra hne
      exact h ⟨p, tail, htext, htail, .inl hne⟩
    · by_contra hne
      exact h ⟨p, tail, htext, htail, .inr (.inl hne)⟩
    · by_contra hnot
      exact h ⟨p, tail, htext, htail, .inr (.inr ⟨c, hc, hnot⟩)⟩
  obtain ⟨rfl, hrest, hdigits⟩ := hright
  obtain ⟨zeros, hzeros⟩ := exists_leadingZeros p.is_ending.ne_nil hdigits
  refine ⟨zeros, String.toList_inj.1 ?_⟩
  rw [toList_statName, ← hzeros, htext, StemParts.text, hrest, List.append_nil]

theorem acceptsStatOnly_iff : AcceptsStatOnly path ↔ ¬ Misread path.name := by
  constructor
  · rintro (⟨case, zeros, hcase, hname⟩ | herror)
    · exact not_misread_of_statName hcase hname
    · rintro ⟨p, tail, htext, htail, -⟩
      exact parseCase_eq_error.1 herror ⟨p, stemOf_of_toList htext htail⟩
  · intro h
    rcases parseCase_ok_or_error path with ⟨case, hcase⟩ | herror
    · obtain ⟨zeros, hname⟩ := exists_statName hcase h
      exact .inl ⟨case, zeros, hcase, hname⟩
    · exact .inr herror

end Accepted

/-! ## The files next to a stat file -/

section Companions

variable {directory backend architecture algorithm operation : String} {size : ℕ}

theorem StemParts.getLast?_text (p : StemParts) :
    ∃ c, p.text.getLast? = some c ∧ (isPyDigit c ∨ c = '\n') := by
  rcases p.rest_eq with hrest | hrest
  · obtain hnil | ⟨ds, c, hdigits⟩ := List.eq_nil_or_concat' p.digits
    · exact absurd hnil p.is_ending.ne_nil
    refine ⟨c, ?_, .inl (p.is_ending.digits c (by simp [hdigits]))⟩
    rw [p.text_eq, hrest, hdigits, List.append_nil, ← List.cons_append, ← List.append_assoc,
      List.getLast?_concat]
  · refine ⟨'\n', ?_, .inr rfl⟩
    rw [p.text_eq, hrest, ← List.cons_append, ← List.append_assoc, List.getLast?_concat]

/-- A name is refused if neither digits nor line breaks stand before its last nine characters. -/
theorem refused_of_split (path : Path) (before word tail : List Char)
    (h : path.name.toList = (before ++ word) ++ tail) (htail : tail.length = statSuffix.length)
    (hne : word ≠ []) (hword : word.all fun c => !isPyDigit c && c != '\n') :
    ∃ text, parseCase path = .error (.valueError text) := by
  rw [parseCase_eq_error]
  rintro ⟨p, hp⟩
  rw [stemOf_of_toList h htail] at hp
  obtain ⟨c, hlast, hc⟩ := p.getLast?_text
  rw [← hp, List.getLast?_append_of_ne_nil _ hne] at hlast
  have hother := List.all_eq_true.1 hword c (List.mem_of_getLast? hlast)
  rcases hc with hc | hc
  · simp [hc] at hother
  · simp [hc] at hother

theorem parseCase_report : ∃ text, parseCase ⟨directory,
    stem backend architecture algorithm operation size ++ ".report.txt"⟩
      = .error (.valueError text) := by
  have htail : ".report.txt".toList = '.' :: 'r' :: "eport.txt".toList := by decide
  refine refused_of_split ⟨directory, _⟩ (stem backend architecture algorithm operation size).toList
    ['.', 'r'] "eport.txt".toList ?_ (by decide) (by decide) (by decide)
  rw [String.toList_append, htail, List.append_assoc]
  rfl

theorem parseCase_perfData : ∃ text, parseCase ⟨directory,
    stem backend architecture algorithm operation size ++ ".perf.data"⟩
      = .error (.valueError text) := by
  have htail : ".perf.data".toList = '.' :: "perf.data".toList := by decide
  refine refused_of_split ⟨directory, _⟩ (stem backend architecture algorithm operation size).toList
    ['.'] "perf.data".toList ?_ (by decide) (by decide) (by decide)
  rw [String.toList_append, htail, List.append_assoc]
  rfl

/-- The digits of a number of five digits or more, without the last four. -/
theorem exists_five_digits (h : 10000 ≤ size) : ∃ front back, front ≠ []
    ∧ back.length = 4 ∧ Nat.toDigits 10 size = front ++ back := by
  have hlength : ¬ (Nat.toDigits 10 size).length ≤ 4 := by
    rw [Nat.length_toDigits_le_iff (by decide) (by decide)]
    omega
  refine ⟨_, _, ?_, ?_, (List.take_append_drop ((Nat.toDigits 10 size).length - 4) _).symm⟩
  · rw [← List.length_pos_iff, List.length_take]
    omega
  · rw [List.length_drop]
    omega

theorem toList_modeName : (stem backend architecture algorithm operation size ++ ".mode").toList
    = (backend.toList ++ (['_', '_'] ++ (architecture.toList ++ (['_', '_'] ++ (algorithm.toList
      ++ ['_', '_'])))) ++ (operation.toList ++ ['_', '_']))
      ++ (Nat.toDigits 10 size ++ ".mode".toList) := by
  rw [String.toList_append, toList_stem]
  simp [ending]

/-- The last nine characters of the name begin inside the operation or the separator after it. -/
theorem refused_mode (hoperation : operation = "seal" ∨ operation = "open") (hsize : size < 10000) :
    ∃ text, parseCase ⟨directory, stem backend architecture algorithm operation size ++ ".mode"⟩
      = .error (.valueError text) := by
  have hdigits : (Nat.toDigits 10 size).length ≤ 4 :=
    (Nat.length_toDigits_le_iff (by decide) (by decide)).2 hsize
  have hmode : ".mode".toList.length = 5 := by decide
  have hsuffix : statSuffix.length = 9 := by decide
  obtain ⟨hlength, hword⟩ : (operation.toList ++ ['_', '_']).length = 6
      ∧ (operation.toList ++ ['_', '_']).all fun c => !isPyDigit c && c != '\n' := by
    rcases hoperation with rfl | rfl
    · exact ⟨by decide, by decide⟩
    · exact ⟨by decide, by decide⟩
  have hname : (stem backend architecture algorithm operation size ++ ".mode").toList = _ :=
    toList_modeName
  generalize operation.toList ++ ['_', '_'] = word at hlength hword hname
  have hsplit (front rest : List Char) (k : ℕ) :
      (front ++ word) ++ rest = (front ++ word.take k) ++ (word.drop k ++ rest) := by
    rw [← List.append_assoc, List.append_assoc front (word.take k), List.take_append_drop]
  rw [hsplit _ _ ((Nat.toDigits 10 size).length + 2)] at hname
  refine refused_of_split ⟨directory, _⟩ _ _ _ hname ?_ ?_ (List.all_eq_true.2 fun c hc =>
    List.all_eq_true.1 hword c (List.mem_of_mem_take hc))
  · rw [List.length_append, List.length_append, List.length_drop, hlength, hmode, hsuffix]
    omega
  · rw [← List.length_pos_iff, List.length_take, hlength]
    omega

/-- The pattern matches up to the fifth digit from the end. -/
theorem not_refused_mode (hbackend : Part backend.toList) (harchitecture : Part architecture.toList)
    (halgorithm : Part algorithm.toList) (hoperation : operation = "seal" ∨ operation = "open")
    (hsize : 10000 ≤ size) :
    ¬ ∃ text, parseCase ⟨directory, stem backend architecture algorithm operation size ++ ".mode"⟩
      = .error (.valueError text) := by
  obtain ⟨front, back, hne, hback, hdigits⟩ := exists_five_digits hsize
  have hpy : ∀ c ∈ front, isPyDigit c := fun c hc => isPyDigit_of_isDigit
    (isDigit_of_mem_toDigits (n := size) c (by rw [hdigits]; simp [hc]))
  rw [parseCase_eq_error, not_not]
  refine ⟨⟨backend.toList, architecture.toList, algorithm.toList, operation.toList, front, [],
    hbackend, harchitecture, halgorithm,
    ⟨hoperation.imp (congrArg String.toList) (congrArg String.toList), hne, hpy⟩, .inl rfl⟩, ?_⟩
  refine @stemOf_of_toList _ _ (back ++ ".mode".toList) ?_ ?_
  · rw [toList_modeName, hdigits]
    simp [StemParts.text, ending]
  · rw [List.length_append, hback]
    rfl

/-- The file of the counter mode is accepted if and only if its size has five digits or more. -/
theorem parseCase_mode (hbackend : Part backend.toList) (harchitecture : Part architecture.toList)
    (halgorithm : Part algorithm.toList) (hoperation : operation = "seal" ∨ operation = "open") :
    (∃ text, parseCase ⟨directory,
        stem backend architecture algorithm operation size ++ ".mode"⟩
      = .error (.valueError text)) ↔ size < 10000 := by
  constructor
  · intro herror
    by_contra hsize
    exact not_refused_mode hbackend harchitecture halgorithm hoperation (not_lt.1 hsize) herror
  · exact refused_mode hoperation

end Companions

/-- `parse_case` accepts only names of stat files, and these as their own case, except for those
that are misread; of the files next to a stat file only that of the counter mode can be one. -/
theorem parseCase_statOnly_iff (path : Path)
    (directory backend architecture algorithm operation : String) (size : ℕ) :
    (AcceptsStatOnly path ↔ ¬ Misread path.name)
    ∧ (Part backend.toList → Part architecture.toList → Part algorithm.toList →
      operation = "seal" ∨ operation = "open" →
      (∃ text, parseCase ⟨directory,
          stem backend architecture algorithm operation size ++ ".report.txt"⟩
        = .error (.valueError text))
      ∧ (∃ text, parseCase ⟨directory,
          stem backend architecture algorithm operation size ++ ".perf.data"⟩
        = .error (.valueError text))
      ∧ ((∃ text, parseCase ⟨directory,
          stem backend architecture algorithm operation size ++ ".mode"⟩
        = .error (.valueError text)) ↔ size < 10000)) :=
  ⟨acceptsStatOnly_iff, fun hbackend harchitecture halgorithm hoperation =>
    ⟨parseCase_report, parseCase_perfData,
      parseCase_mode hbackend harchitecture halgorithm hoperation⟩⟩

theorem parseCase_statOnly_iff_sixtyFour :
    ∃ text, parseCase ⟨"profiles/", stem "openssl" "arm64" "aes-128-gcm" "seal" 64 ++ ".mode"⟩
      = .error (.valueError text) :=
  ((parseCase_statOnly_iff
      ⟨"profiles/", stem "openssl" "arm64" "aes-128-gcm" "seal" 64 ++ ".mode"⟩
      "profiles/" "openssl" "arm64" "aes-128-gcm" "seal" 64).2
    ⟨by decide, by decide⟩ ⟨by decide, by decide⟩ ⟨by decide, by decide⟩ (.inl rfl)).2.2.2
    (by decide)

/-- The counter mode of 16384 bytes is read as a case of one byte. -/
theorem parseCase_mode_oneByte :
    parseCase ⟨"profiles/", "openssl__arm64__aes-128-gcm__seal__16384.mode"⟩
        = .ok ⟨"openssl", "arm64", "aes-128-gcm", "seal", 1⟩
      ∧ ¬ ∀ path, AcceptsStatOnly path := by
  refine ⟨by decide +kernel, fun h => ?_⟩
  have hmisread : Misread "openssl__arm64__aes-128-gcm__seal__16384.mode" := by
    refine ⟨⟨"openssl".toList, "arm64".toList, "aes-128-gcm".toList, "seal".toList, ['1'], [],
      ⟨by decide, by decide⟩, ⟨by decide, by decide⟩, ⟨by decide, by decide⟩,
      ⟨.inl rfl, by decide, List.forall_mem_singleton.2 (by decide)⟩, .inl rfl⟩,
      "6384.mode".toList, ?_, by decide, .inl (by decide)⟩
    decide +kernel
  exact acceptsStatOnly_iff.1 (h ⟨"profiles/", _⟩) hmisread

end OfbBench.Profiles
