import OfbBench.Profiles

/-!
# The names of profile files

`parse_case` on the names `profile_aead.sh` builds. The pattern has three greedy wildcards between
separators that may overlap themselves; each takes the longest text after which the rest can match.

How such a name ends leaves no choice (`ending_inj`): its digits reach back to the separator before
them, and both operations have four letters. Before that, a separator inside the name further left
would stand in a part that has none (`separator_append_ne`).
-/

namespace OfbBench.Profiles

open Regex

/-! ## Separators -/

/-- A part of a name that cannot be split: it has no `__`, nor does a `_` before it make one. -/
structure Component (name : String) : Prop where
  ne_nil : name.toList ≠ []
  newline : '\n' ∉ name.toList
  head : name.toList.head? ≠ some '_'
  separator : ¬ ['_', '_'] <:+: name.toList

theorem dot_of_notMem {text : List Char} (h : '\n' ∉ text) : ∀ c ∈ text, dot c := by
  intro c hc
  unfold dot
  rw [decide_eq_true_eq]
  rintro rfl
  exact h hc

theorem separator_append_ne {name : String} (h : Component name) {w z : List Char} (hw : w ≠ []) :
    ['_', '_'] ++ name.toList ≠ w ++ (['_', '_'] ++ z) := by
  intro heq
  rcases w with _ | ⟨c, _ | ⟨d, w⟩⟩
  · exact hw rfl
  · refine h.head ?_
    have htail := congrArg List.tail (congrArg List.tail heq)
    simp only [List.cons_append, List.nil_append, List.tail_cons] at htail
    rw [htail]
    rfl
  · refine h.separator ⟨w, z, ?_⟩
    have htail := congrArg List.tail (congrArg List.tail heq)
    simp only [List.cons_append, List.nil_append, List.tail_cons] at htail
    rw [htail]
    simp

/-! ## The end of a name -/

/-- The end of a name: its operation and the digits of its size. -/
def ending (operation digits : List Char) : List Char :=
  ['_', '_'] ++ operation ++ ['_', '_'] ++ digits

structure IsEnding (operation digits : List Char) : Prop where
  operation : operation = "seal".toList ∨ operation = "open".toList
  ne_nil : digits ≠ []
  digits : ∀ c ∈ digits, isPyDigit c

theorem IsEnding.length {operation digits : List Char} (h : IsEnding operation digits) :
    operation.length = 4 := by
  rcases h.operation with ho | ho
  · rw [ho]
    rfl
  · rw [ho]
    rfl

/-- The digits a text ends with, in reverse. -/
theorem takeWhile_reverse {z digits : List Char} (h : ∀ c ∈ digits, isPyDigit c) :
    (z ++ '_' :: digits).reverse.takeWhile isPyDigit = digits.reverse := by
  rw [List.reverse_append, List.reverse_cons, List.append_assoc,
    List.takeWhile_append_of_pos fun c hc => h c (List.mem_reverse.1 hc)]
  have hstop : isPyDigit '_' = false := by decide
  simp [hstop]

theorem ending_inj {z z' operation operation' digits digits' rest : List Char}
    (h : IsEnding operation digits) (h' : IsEnding operation' digits')
    (hrest : rest = [] ∨ rest = ['\n'])
    (heq : z ++ ending operation digits = z' ++ (ending operation' digits' ++ rest)) :
    z = z' ∧ rest = [] := by
  have hshape : ∀ z operation digits, z ++ ending operation digits
      = (z ++ ['_', '_'] ++ operation ++ ['_']) ++ '_' :: digits := by
    intro z operation digits
    simp [ending]
  have hdigits := congrArg (fun text => text.reverse.takeWhile isPyDigit) heq
  rcases hrest with rfl | rfl
  · rw [List.append_nil] at heq hdigits
    simp only [hshape, takeWhile_reverse h.digits, takeWhile_reverse h'.digits,
      List.reverse_inj] at hdigits
    subst hdigits
    have hcut := List.append_inj' heq (by simp [ending, h.length, h'.length])
    exact ⟨hcut.1, rfl⟩
  · simp only [hshape, takeWhile_reverse h.digits] at hdigits
    rw [← List.append_assoc, List.reverse_append, List.reverse_singleton, List.singleton_append,
      List.takeWhile_cons_of_neg (by decide), List.reverse_eq_nil_iff] at hdigits
    exact absurd hdigits h.ne_nil

/-! ## The rests of the pattern -/

def sizeRest : Regex := .seq separator (.seq (.capture "size" (.plus isPyDigit)) .atEnd)

def operationRest : Regex :=
  .seq separator
    (.seq (.capture "operation" (.alt (.lit "seal".toList) (.lit "open".toList))) sizeRest)

def algorithmRest : Regex := .seq separator (.seq (.capture "algorithm" (.plus dot)) operationRest)

def architectureRest : Regex :=
  .seq separator (.seq (.capture "architecture" (.plus dot)) algorithmRest)

theorem casePattern_eq :
    casePattern = .seq (.capture "backend" (.plus dot)) architectureRest := rfl

section Members

variable {s : List Char} {m : Captures × List Char} {name : String} {k : Regex}

/-- A text that `.+` can take. -/
structure Part (text : List Char) : Prop where
  ne_nil : text ≠ []
  newline : '\n' ∉ text

theorem forall_dot {text : List Char} : (∀ c ∈ text, dot c) ↔ '\n' ∉ text := by
  refine ⟨fun h hmem => ?_, dot_of_notMem⟩
  exact absurd (h _ hmem) (by decide)

theorem mem_part : m ∈ (seq separator (seq (capture name (plus dot)) k)).run s ↔
    ∃ text y, ∃ n ∈ k.run y, Part text ∧ s = ['_', '_'] ++ (text ++ y)
      ∧ m = ((name, text) :: n.1, n.2) := by
  constructor
  · intro h
    obtain ⟨y, rfl, hy⟩ := mem_run_lit_seq.1 h
    obtain ⟨text, z, n, rfl, hne, hdot, hn, rfl⟩ := mem_run_plus_seq.1 hy
    exact ⟨text, z, n, hn, ⟨hne, forall_dot.1 hdot⟩, rfl, rfl⟩
  · rintro ⟨text, y, n, hn, htext, rfl, rfl⟩
    exact mem_run_lit_seq.2 ⟨_, rfl, mem_run_plus_seq.2
      ⟨text, y, n, rfl, htext.ne_nil, forall_dot.2 htext.newline, hn, rfl⟩⟩

theorem mem_sizeRest : m ∈ sizeRest.run s ↔ ∃ digits, digits ≠ [] ∧ (∀ c ∈ digits, isPyDigit c)
    ∧ (m.2 = [] ∨ m.2 = ['\n']) ∧ s = ['_', '_'] ++ (digits ++ m.2)
    ∧ m.1 = [("size", digits)] := by
  constructor
  · intro h
    obtain ⟨y, rfl, hy⟩ := mem_run_lit_seq.1 h
    obtain ⟨digits, z, n, rfl, hne, hdigits, hn, rfl⟩ := mem_run_plus_seq.1 hy
    obtain ⟨hz, rfl⟩ := mem_run_atEnd.1 hn
    exact ⟨digits, hne, hdigits, hz, rfl, rfl⟩
  · rintro ⟨digits, hne, hdigits, hrest, rfl, hm⟩
    exact mem_run_lit_seq.2 ⟨_, rfl, mem_run_plus_seq.2 ⟨digits, m.2, ([], m.2), rfl, hne,
      hdigits, mem_run_atEnd.2 ⟨hrest, rfl⟩, Prod.ext hm rfl⟩⟩

theorem mem_operation :
    m ∈ (alt (lit "seal".toList) (lit "open".toList)).run s ↔
      ∃ operation, (operation = "seal".toList ∨ operation = "open".toList)
        ∧ s = operation ++ m.2 ∧ m.1 = [] := by
  rw [run, List.mem_append, mem_run_lit, mem_run_lit]
  constructor
  · rintro (⟨hs, hm⟩ | ⟨hs, hm⟩)
    · exact ⟨_, .inl rfl, hs, hm⟩
    · exact ⟨_, .inr rfl, hs, hm⟩
  · rintro ⟨_, rfl | rfl, hs, hm⟩
    · exact .inl ⟨hs, hm⟩
    · exact .inr ⟨hs, hm⟩

theorem mem_operationRest : m ∈ operationRest.run s ↔ ∃ operation digits,
    IsEnding operation digits ∧ (m.2 = [] ∨ m.2 = ['\n']) ∧ s = ending operation digits ++ m.2
      ∧ m.1 = [("operation", operation), ("size", digits)] := by
  constructor
  · intro h
    obtain ⟨y, rfl, hy⟩ := mem_run_lit_seq.1 h
    obtain ⟨_, hcapture, n, hn, rfl⟩ := mem_run_seq.1 hy
    obtain ⟨operation, ⟨_, y₂⟩, halt, rfl, rfl⟩ := mem_run_capture.1 hcapture
    obtain ⟨operation', hop, heq, rfl⟩ := mem_operation.1 halt
    obtain rfl := List.append_cancel_right heq
    obtain ⟨digits, hne, hdigits, hrest, rfl, hcaptures⟩ := mem_sizeRest.1 hn
    refine ⟨operation, digits, ⟨hop, hne, hdigits⟩, hrest, by simp [ending], ?_⟩
    rw [hcaptures]
    rfl
  · rintro ⟨operation, digits, h, hrest, rfl, hm⟩
    have hsize : ([("size", digits)], m.2) ∈ sizeRest.run (['_', '_'] ++ (digits ++ m.2)) :=
      mem_sizeRest.2 ⟨digits, h.ne_nil, h.digits, hrest, rfl, rfl⟩
    refine mem_run_lit_seq.2 ⟨operation ++ (['_', '_'] ++ (digits ++ m.2)), by simp [ending],
      mem_run_seq.2 ⟨([("operation", operation)], _), mem_run_capture.2 ⟨operation, ([], _),
        mem_operation.2 ⟨operation, h.operation, rfl, rfl⟩, rfl, rfl⟩, _, hsize,
          Prod.ext hm rfl⟩⟩

theorem mem_algorithmRest : m ∈ algorithmRest.run s ↔ ∃ algorithm operation digits,
    Part algorithm ∧ IsEnding operation digits ∧ (m.2 = [] ∨ m.2 = ['\n'])
      ∧ s = ['_', '_'] ++ (algorithm ++ (ending operation digits ++ m.2))
      ∧ m.1 = [("algorithm", algorithm), ("operation", operation), ("size", digits)] := by
  constructor
  · intro h
    obtain ⟨algorithm, y, n, hn, halgorithm, rfl, rfl⟩ := mem_part.1 h
    obtain ⟨operation, digits, hending, hrest, rfl, hcaptures⟩ := mem_operationRest.1 hn
    exact ⟨algorithm, operation, digits, halgorithm, hending, hrest, rfl, by rw [hcaptures]⟩
  · rintro ⟨algorithm, operation, digits, halgorithm, hending, hrest, rfl, hm⟩
    exact mem_part.2 ⟨algorithm, _, ([("operation", operation), ("size", digits)], m.2),
      mem_operationRest.2 ⟨operation, digits, hending, hrest, rfl, rfl⟩, halgorithm, rfl,
      Prod.ext hm rfl⟩

theorem mem_architectureRest : m ∈ architectureRest.run s ↔
    ∃ architecture algorithm operation digits, Part architecture ∧ Part algorithm
      ∧ IsEnding operation digits ∧ (m.2 = [] ∨ m.2 = ['\n'])
      ∧ s = ['_', '_'] ++ (architecture ++ (['_', '_'] ++ (algorithm
        ++ (ending operation digits ++ m.2))))
      ∧ m.1 = [("architecture", architecture), ("algorithm", algorithm),
        ("operation", operation), ("size", digits)] := by
  constructor
  · intro h
    obtain ⟨architecture, y, n, hn, harchitecture, rfl, rfl⟩ := mem_part.1 h
    obtain ⟨algorithm, operation, digits, halgorithm, hending, hrest, rfl, hcaptures⟩ :=
      mem_algorithmRest.1 hn
    exact ⟨architecture, algorithm, operation, digits, harchitecture, halgorithm, hending, hrest,
      rfl, by rw [hcaptures]⟩
  · rintro ⟨architecture, algorithm, operation, digits, harchitecture, halgorithm, hending, hrest,
      rfl, hm⟩
    have halgorithmRest : ([("algorithm", algorithm), ("operation", operation), ("size", digits)],
        m.2) ∈ algorithmRest.run (['_', '_'] ++ (algorithm ++ (ending operation digits ++ m.2))) :=
      mem_algorithmRest.2 ⟨algorithm, operation, digits, halgorithm, hending, hrest, rfl, rfl⟩
    exact mem_part.2 ⟨architecture, _, _, halgorithmRest, harchitecture, rfl, Prod.ext hm rfl⟩

end Members

/-! ## The first match -/

section First

variable {backend architecture algorithm : String} {operation digits : List Char}

theorem first_operationRest (h : IsEnding operation digits) :
    First operationRest (ending operation digits)
      ([("operation", operation), ("size", digits)], []) := by
  have hsize : First (.seq (.capture "size" (.plus isPyDigit)) .atEnd) (digits ++ [])
      ([("size", digits)], []) := by
    refine first_greedy h.ne_nil h.digits (k := .atEnd) (m := ([], [])) rfl ?_
    intro w y' hw hy
    exact absurd (List.append_eq_nil_iff.1 hy.symm).1 hw
  rw [List.append_nil] at hsize
  have hrest : First sizeRest (['_', '_'] ++ digits) ([("size", digits)], []) := first_lit hsize
  have hoperation : First
      (.seq (.capture "operation" (.alt (.lit "seal".toList) (.lit "open".toList))) sizeRest)
      (operation ++ (['_', '_'] ++ digits)) ([("operation", operation), ("size", digits)], []) := by
    unfold First at hrest ⊢
    rw [List.cons_append, List.cons_append, List.nil_append] at hrest
    rcases h.operation with rfl | rfl
    · simp [run, lit, hrest]
    · simp [run, lit, hrest]
  have hall := @first_lit _ _ ['_', '_'] _ hoperation
  rw [← List.append_assoc, ← List.append_assoc] at hall
  exact hall

theorem first_algorithmRest (halgorithm : Component algorithm) (h : IsEnding operation digits) :
    First algorithmRest (['_', '_'] ++ (algorithm.toList ++ ending operation digits))
      ([("algorithm", algorithm.toList), ("operation", operation), ("size", digits)], []) := by
  refine first_lit (first_greedy halgorithm.ne_nil (dot_of_notMem halgorithm.newline)
    (first_operationRest h) ?_)
  rintro w y' hw hy -
  rw [List.eq_nil_iff_forall_not_mem]
  intro m hm
  obtain ⟨operation', digits', h', hrest, rfl, -⟩ := mem_operationRest.1 hm
  have hcut := ending_inj h h' hrest (z := []) (by simpa using hy)
  exact hw hcut.1.symm

theorem first_architectureRest (harchitecture : Component architecture)
    (halgorithm : Component algorithm) (h : IsEnding operation digits) :
    First architectureRest (['_', '_'] ++ (architecture.toList ++ (['_', '_'] ++
        (algorithm.toList ++ ending operation digits))))
      ([("architecture", architecture.toList), ("algorithm", algorithm.toList),
        ("operation", operation), ("size", digits)], []) := by
  refine first_lit (first_greedy harchitecture.ne_nil (dot_of_notMem harchitecture.newline)
    (first_algorithmRest halgorithm h) ?_)
  rintro w y' hw hy -
  rw [List.eq_nil_iff_forall_not_mem]
  intro m hm
  obtain ⟨algorithm', operation', digits', -, h', hrest, rfl, -⟩ := mem_algorithmRest.1 hm
  have hcut := @ending_inj (['_', '_'] ++ algorithm.toList) (w ++ (['_', '_'] ++ algorithm'))
    _ _ _ _ _ h h' hrest (by simpa using hy)
  exact separator_append_ne halgorithm hw hcut.1

theorem first_casePattern (hne : backend.toList ≠ []) (hnewline : '\n' ∉ backend.toList)
    (harchitecture : Component architecture) (halgorithm : Component algorithm)
    (h : IsEnding operation digits) :
    First casePattern (backend.toList ++ (['_', '_'] ++ (architecture.toList ++ (['_', '_'] ++
        (algorithm.toList ++ ending operation digits)))))
      ([("backend", backend.toList), ("architecture", architecture.toList),
        ("algorithm", algorithm.toList), ("operation", operation), ("size", digits)], []) := by
  rw [casePattern_eq]
  refine first_greedy hne (dot_of_notMem hnewline)
    (first_architectureRest harchitecture halgorithm h) ?_
  rintro w y' hw hy -
  rw [List.eq_nil_iff_forall_not_mem]
  intro m hm
  obtain ⟨architecture', algorithm', operation', digits', -, -, h', hrest, rfl, -⟩ :=
    mem_architectureRest.1 hm
  have hcut := @ending_inj (['_', '_'] ++ (architecture.toList ++ (['_', '_'] ++ algorithm.toList)))
    (w ++ (['_', '_'] ++ (architecture' ++ (['_', '_'] ++ algorithm'))))
    _ _ _ _ _ h h' hrest (by simpa using hy)
  -- one of the two last separators lies inside or at the start of the other's component
  have hparts : (['_', '_'] ++ architecture.toList) ++ (['_', '_'] ++ algorithm.toList)
      = (w ++ (['_', '_'] ++ architecture')) ++ (['_', '_'] ++ algorithm') := by
    simpa using hcut.1
  rcases List.append_eq_append_iff.1 hparts with ⟨c, hleft, hright⟩ | ⟨c, hleft, hright⟩
  · rcases List.eq_nil_or_concat' c with rfl | hc
    · rw [List.append_nil] at hleft
      exact separator_append_ne harchitecture hw hleft.symm
    · refine separator_append_ne halgorithm ?_ hright
      rintro rfl
      simp at hc
  · rw [List.append_assoc, List.append_assoc] at hleft
    exact separator_append_ne harchitecture hw hleft

end First

/-! ## The round trip -/

theorem stemOf_append (name : String) : stemOf (name ++ statSuffix) = name := by
  unfold stemOf
  rw [String.length_append, Nat.add_sub_cancel, String.toList_append, ← String.length_toList,
    List.take_left, String.ofList_toList]

theorem toList_stem (backend architecture algorithm operation : String) (messageSize : ℕ) :
    (stem backend architecture algorithm operation messageSize).toList
      = backend.toList ++ (['_', '_'] ++ (architecture.toList ++ (['_', '_'] ++
        (algorithm.toList ++ ending operation.toList (Nat.toDigits 10 messageSize))))) := by
  have hseparator : "__".toList = ['_', '_'] := rfl
  have hsize : (toString messageSize).toList = Nat.toDigits 10 messageSize := by
    change (Nat.repr messageSize).toList = _
    rw [Nat.toList_repr]
  unfold stem ending
  simp only [String.toList_append, hseparator, hsize, List.append_assoc]

/-- The name of a stat file is read back as the five parts it was built from. -/
theorem parseCase_stem (directory : String) {backend architecture algorithm operation : String}
    (messageSize : ℕ) (hne : backend ≠ "") (hnewline : '\n' ∉ backend.toList)
    (harchitecture : Component architecture) (halgorithm : Component algorithm)
    (hoperation : operation = "seal" ∨ operation = "open") :
    parseCase ⟨directory, stem backend architecture algorithm operation messageSize ++ ".stat.csv"⟩
      = .ok ⟨backend, architecture, algorithm, operation, messageSize⟩ := by
  have hending : IsEnding operation.toList (Nat.toDigits 10 messageSize) :=
    { operation := hoperation.imp (congrArg String.toList) (congrArg String.toList)
      ne_nil := Nat.toDigits_ne_nil
      digits := fun c hc => isPyDigit_of_isDigit (isDigit_of_mem_toDigits c hc) }
  have hbackend : backend.toList ≠ [] := fun h => hne (String.toList_eq_nil_iff.1 h)
  have hfirst := (first_casePattern hbackend hnewline harchitecture halgorithm hending).first
  unfold parseCase
  rw [show (".stat.csv" : String) = statSuffix from rfl, stemOf_append, toList_stem, hfirst]
  simp [Case.ofGroups, group, List.lookup_cons, pyInt_toDigits]

theorem parseCase_stem_patched :
    parseCase
        ⟨"profiles/", stem "libressl__patched" "x86_64_" "aes-128-gcm" "seal" 64 ++ ".stat.csv"⟩
      = .ok ⟨"libressl__patched", "x86_64_", "aes-128-gcm", "seal", 64⟩ :=
  parseCase_stem "profiles/" 64 (by decide) (by decide)
    ⟨by decide, by decide, by decide, by decide⟩ ⟨by decide, by decide, by decide, by decide⟩
    (.inl rfl)

end OfbBench.Profiles
