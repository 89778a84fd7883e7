import OfbBench.Lib.Except
import OfbBench.Summary

/-!
# What the summary's tables say

`aggregate` holds, for each key and backend, the median of the samples of the rows with that key and
backend (`get?_aggregate`); a table has a row for each of its keys (`table_tabulates`), and the
document a section for each architecture, made of the rows of that architecture alone
(`render_tables`).
-/

namespace OfbBench.Summary

theorem pySorted_eq_ok {α : Type} {comparable : α → α → Bool} {le : α → α → Prop} [DecidableRel le]
    {xs ys : List α} : pySorted comparable le xs = .ok ys ↔
      xs.Pairwise (comparable · · = true) ∧ ys = xs.insertionSort le := by
  rw [← sorted_eq_some]
  unfold pySorted
  cases sorted comparable le xs with
  | none => simp
  | some zs => simp

/-! ## Aggregation -/

section Aggregate

variable (keyFields : List (Row → Option Label)) (metric : Row → Option ℚ)

/-- The key of a row, if it has all its fields. -/
def keyOf (row : Row) : Option Key := keyFields.mapM fun field => field row

/-- What a row contributes to an aggregation. -/
def entryOf (row : Row) : Option ((Key × Label) × ℚ) := do
  let sample ← metric row
  let key ← keyOf keyFields row
  let backend ← row.backend
  pure ((key, backend), sample)

/-- A row with the metric that lacks a key field or the backend. -/
def Lacking (row : Row) : Prop := metric row ≠ none ∧ entryOf keyFields metric row = none

instance : DecidablePred (Lacking keyFields metric) := fun _ => instDecidableAnd

variable {keyFields metric}

theorem mapM_require {fields : List (Row → Option Label)} {row : Row} :
    fields.mapM (fun field => require (field row)) =
      match keyOf fields row with
      | some key => .ok key
      | none => .error .keyError := by
  unfold keyOf
  induction fields with
  | nil => rfl
  | cons field fields ih =>
    rw [List.mapM_cons, List.mapM_cons, ih]
    rcases field row with _ | value
    · rfl
    · rcases hk : fields.mapM (fun field => field row) with _ | key
      · simp [hk, require, bind, Except.bind]
      · simp [hk, require, bind, Except.bind, pure, Except.pure]

theorem length_of_keyOf {fields : List (Row → Option Label)} {row : Row} {key : Key}
    (h : keyOf fields row = some key) : key.length = fields.length := by
  unfold keyOf at h
  induction fields generalizing key with
  | nil =>
    obtain rfl : [] = key := by simpa using h
    rfl
  | cons field fields ih =>
    rw [List.mapM_cons] at h
    obtain ⟨value, -, h⟩ := Option.bind_eq_some_iff.1 h
    obtain ⟨key', hk, h⟩ := Option.bind_eq_some_iff.1 h
    obtain rfl : value :: key' = key := by simpa using h
    rw [List.length_cons, List.length_cons, ih hk]

theorem entryOf_eq_some {row : Row} {entry : (Key × Label) × ℚ} :
    entryOf keyFields metric row = some entry ↔ metric row = some entry.2 ∧
      keyOf keyFields row = some entry.1.1 ∧ row.backend = some entry.1.2 := by
  obtain ⟨⟨key, backend⟩, sample⟩ := entry
  rcases hm : metric row with _ | sample'
  · simp [entryOf, hm]
  rcases hk : keyOf keyFields row with _ | key'
  · simp [entryOf, hm, hk]
  rcases hb : row.backend with _ | backend'
  · simp [entryOf, hm, hk, hb]
  · simp [entryOf, hm, hk, hb]
    tauto

variable (keyFields metric)

/-- An aggregation fails at a lacking row, and else collects what each row contributes. -/
theorem measurements_eq (rows : List Row) : measurements keyFields metric rows =
    if ∃ row ∈ rows, Lacking keyFields metric row then .error .keyError
    else .ok (rows.filterMap (entryOf keyFields metric)) := by
  induction rows with
  | nil => simp [measurements, pure, Except.pure]
  | cons row rows ih =>
    unfold measurements
    simp only [List.exists_mem_cons_iff, mapM_require, ih]
    rcases hm : metric row with _ | sample
    · have hl : ¬ Lacking keyFields metric row := fun h => h.1 hm
      have he : entryOf keyFields metric row = none := by simp [entryOf, hm]
      simp only [hl, false_or, List.filterMap_cons_none he]
    rcases hk : keyOf keyFields row with _ | key
    · have hl : Lacking keyFields metric row := ⟨by simp [hm], by simp [entryOf, hm, hk]⟩
      simp only [hl, true_or, if_true]
      rfl
    rcases hb : row.backend with _ | backend
    · have hl : Lacking keyFields metric row := ⟨by simp [hm], by simp [entryOf, hm, hk, hb]⟩
      simp only [hl, true_or, if_true]
      rfl
    have he : entryOf keyFields metric row = some ((key, backend), sample) :=
      entryOf_eq_some.2 ⟨hm, hk, hb⟩
    have hl : ¬ Lacking keyFields metric row := fun h => Option.some_ne_none _ (he.symm.trans h.2)
    simp only [hl, false_or, List.filterMap_cons_some he]
    split_ifs with h
    · rfl
    · rfl

theorem aggregate_eq (rows : List Row) : aggregate keyFields metric rows =
    if ∃ row ∈ rows, Lacking keyFields metric row then .error .keyError
    else .ok (medians (collect (rows.filterMap (entryOf keyFields metric)))) := by
  unfold aggregate
  rw [measurements_eq]
  split_ifs with h
  · rfl
  · rfl

/-- The samples of a key and a backend. -/
def samplesOf (rows : List Row) (key : Key) (backend : Label) : List ℚ :=
  rows.filterMap fun row =>
    if keyOf keyFields row = some key ∧ row.backend = some backend then metric row else none

/-- The median of some samples, if there are any. -/
def median? (samples : List ℚ) : Option ℚ := if samples = [] then none else some (median samples)

variable {keyFields metric}

theorem samplesOf_eq (rows : List Row) (key : Key) (backend : Label) :
    ((rows.filterMap (entryOf keyFields metric)).filter (·.1 = (key, backend))).map Prod.snd
      = samplesOf keyFields metric rows key backend := by
  unfold samplesOf
  rw [List.filter_filterMap, List.map_filterMap]
  refine List.filterMap_congr fun row _ => ?_
  rcases hm : metric row with _ | sample
  · simp [entryOf, hm]
  rcases hk : keyOf keyFields row with _ | key'
  · simp [entryOf, hm, hk]
  rcases hb : row.backend with _ | backend'
  · simp [entryOf, hm, hk, hb]
  · have he : entryOf keyFields metric row = some ((key', backend'), sample) :=
      entryOf_eq_some.2 ⟨hm, hk, hb⟩
    simp only [he, Option.filter_some, Prod.mk.injEq, Option.some.injEq, decide_eq_true_eq]
    split_ifs with h
    · rfl
    · rfl

/-- The dictionary of an aggregation holds the medians of the samples. -/
theorem get?_medians (rows : List Row) (key : Key) (backend : Label) :
    ((medians (collect (rows.filterMap (entryOf keyFields metric)))).get? key).bind
      (·.get? backend) = median? (samplesOf keyFields metric rows key backend) := by
  unfold medians collect
  rw [Dict.get?_nested, Dict.get?_groups, ← samplesOf_eq]
  unfold median?
  simp only [List.map_eq_nil_iff]
  split_ifs with h
  · rfl
  · rfl

theorem mem_keys_medians {rows : List Row} {key : Key}
    (h : ∀ row ∈ rows, ¬ Lacking keyFields metric row) :
    key ∈ (medians (collect (rows.filterMap (entryOf keyFields metric)))).keys ↔
      ∃ row ∈ rows, metric row ≠ none ∧ keyOf keyFields row = some key := by
  unfold medians collect
  rw [Dict.mem_keys_nested]
  simp only [Dict.mem_keys_groups, List.mem_filterMap]
  constructor
  · rintro ⟨backend, entry, ⟨row, hr, he⟩, hk⟩
    obtain ⟨hm, hkey, -⟩ := entryOf_eq_some.1 he
    rw [hk] at hkey
    exact ⟨row, hr, by simp [hm], hkey⟩
  · rintro ⟨row, hr, hm, hkey⟩
    obtain ⟨entry, he⟩ := Option.ne_none_iff_exists'.1 fun hn => h row hr ⟨hm, hn⟩
    obtain ⟨-, hkey', -⟩ := entryOf_eq_some.1 he
    rw [hkey', Option.some.injEq] at hkey
    exact ⟨entry.1.2, entry, ⟨row, hr, he⟩, by rw [← hkey]⟩

end Aggregate

/-! ## Orders -/

/-- `names` are the names that occur, each once, by rank and then in their own order. -/
structure InOrder (rank : Label → ℕ) (occurs : Label → Prop) (names : List Label) : Prop where
  increasing : names.Pairwise fun a b => toLex (rank a, a) < toLex (rank b, b)
  mem_iff : ∀ name, name ∈ names ↔ occurs name

section Orders

variable (rank : Label → ℕ)

theorem rank_le_antisymm {a b : Label} (hab : toLex (rank a, a) ≤ toLex (rank b, b))
    (hba : toLex (rank b, b) ≤ toLex (rank a, a)) : a = b := by
  have h : toLex (rank a, a) = toLex (rank b, b) := le_antisymm hab hba
  exact (Prod.mk.inj (toLex.injective h)).2

instance : Std.Total fun a b : Label => toLex (rank a, a) ≤ toLex (rank b, b) :=
  ⟨fun a b => le_total (toLex (rank a, a)) (toLex (rank b, b))⟩

instance : IsTrans Label fun a b => toLex (rank a, a) ≤ toLex (rank b, b) :=
  ⟨fun _ _ _ hab hbc => le_trans hab hbc⟩

instance : Std.Antisymm fun a b : Label => toLex (rank a, a) ≤ toLex (rank b, b) :=
  ⟨fun _ _ => rank_le_antisymm rank⟩

variable {rank}

theorem sortByRank_inOrder {names out : List Label} (hn : names.Nodup)
    (h : sortByRank rank names = .ok out) : InOrder rank (· ∈ names) out := by
  obtain ⟨-, rfl⟩ := pySorted_eq_ok.1 h
  have hperm := List.perm_insertionSort
    (fun a b : Label => toLex (rank a, a) ≤ toLex (rank b, b)) names
  refine ⟨?_, fun name => hperm.mem_iff⟩
  have hne := hperm.nodup_iff.2 hn
  refine (List.pairwise_insertionSort _ names).imp₂ ?_ hne
  intro a b hle hne
  exact lt_of_le_of_ne hle fun he => hne (rank_le_antisymm rank he.le he.ge)

end Orders

/-! ## Tables -/

section Tables

/-- The samples of a kind, a key and a backend. -/
def Kind.samples (kind : Kind) (rows : List Row) : Key → Label → List ℚ :=
  samplesOf kind.keyFields kind.metric (rows.filter kind.selects)

/-- The cell of a backend's samples. -/
def rateCell (samples : List ℚ) : String :=
  if samples = [] then dash else fixed groupedDigits 2 (median samples)

theorem rateCell_eq_dash {samples : List ℚ} : rateCell samples = dash ↔ samples = [] := by
  unfold rateCell
  split_ifs with h
  · exact ⟨fun _ => h, fun _ => rfl⟩
  · refine ⟨fun he => ?_, fun hs => absurd hs h⟩
    have hpoint : '.' ∈ (fixed groupedDigits 2 (median samples)).toList := point_mem_fixed ..
    rw [he] at hpoint
    exact absurd hpoint (by decide)

/-- The cell of the quotient of two medians. -/
def quotientCell (digits : ℕ) (samples baseline : List ℚ) : String :=
  if samples = [] ∨ baseline = [] ∨ median baseline = 0 then dash
  else fixed plainDigits digits (median samples / median baseline) ++ "×"

/-- The columns of a table: each its heading and its cell in the row of `key`. -/
def Kind.columns (kind : Kind) (rows : List Row) (backends : List Label) (key : Key) :
    List (String × String) :=
  let samples := kind.samples rows key
  kind.keyHeadings.zip (key.map Label.text)
  ++ backends.map (fun backend =>
    (displayBackend backend ++ kind.unit, rateCell (samples backend)))
  ++ ((if .str "openssl" ∈ backends ∧ .str "libressl" ∈ backends then
      [("OpenSSL / baseline",
        quotientCell 2 (samples (.str "openssl")) (samples (.str "libressl")))]
    else [])
  ++ if .str "libressl-patched" ∈ backends ∧ .str "libressl" ∈ backends then
      [("Patched / baseline",
        quotientCell 3 (samples (.str "libressl-patched")) (samples (.str "libressl")))]
    else [])

/-- The headings of the columns. -/
def Kind.columnHeadings (kind : Kind) (backends : List Label) : List String :=
  kind.keyHeadings ++ backends.map (fun backend => displayBackend backend ++ kind.unit)
  ++ ((if .str "openssl" ∈ backends ∧ .str "libressl" ∈ backends then
      ["OpenSSL / baseline"]
    else [])
  ++ if .str "libressl-patched" ∈ backends ∧ .str "libressl" ∈ backends then
      ["Patched / baseline"]
    else [])

/-- `cells` is the row of `key`: as many cells as there are headings, under each its own. -/
structure Kind.IsRow (kind : Kind) (rows : List Row) (backends : List Label) (key : Key)
    (cells : List String) : Prop where
  length_eq : cells.length = (kind.columnHeadings backends).length
  zip_eq : (kind.columnHeadings backends).zip cells = kind.columns rows backends key

/-- `table` has one row for each key of the rows of the kind with its metric, in the order of the
keys. -/
structure Kind.Tabulates (kind : Kind) (rows : List Row) (backends : List Label) (keys : List Key)
    (table : Table) : Prop where
  headings_eq : table.headings = kind.columnHeadings backends
  increasing : keys.Pairwise fun a b => Key.comparable a b = true ∧ a < b
  mem_iff : ∀ key, key ∈ keys ↔ ∃ row ∈ rows, kind.selects row = true ∧ kind.metric row ≠ none ∧
    keyOf kind.keyFields row = some key
  rows : List.Forall₂ (kind.IsRow rows backends) keys table.rows

theorem Kind.headings_eq (kind : Kind) (backends : List Label) :
    kind.headings backends = kind.columnHeadings backends := rfl

variable {values : Dict Label ℚ} {samples : Label → List ℚ} {backends : List Label}

theorem rateCell_eq (h : ∀ backend, values.get? backend = median? (samples backend))
    (backend : Label) : (match values.get? backend with
      | some value => formatRate value
      | none => dash) = rateCell (samples backend) := by
  rw [h]
  unfold median? rateCell
  split_ifs with hs
  · rfl
  · rfl

theorem ratioCellOf_eq (h : ∀ backend, values.get? backend = median? (samples backend))
    (numerator : String) (digits : ℕ) : ratioCellOf numerator digits values
      = quotientCell digits (samples (.str numerator)) (samples (.str "libressl")) := by
  unfold ratioCellOf quotientCell
  rw [h, h]
  unfold median?
  by_cases hn : samples (.str numerator) = []
  · simp [hn]
  by_cases hb : samples (.str "libressl") = []
  · simp [hn, hb]
  · simp [hn, hb]

theorem tableRow_eq (h : ∀ backend, values.get? backend = median? (samples backend)) (key : Key) :
    tableRow key values backends = key.map Label.text
      ++ backends.map (fun backend => rateCell (samples backend)) ++ ratios values backends := by
  have hrates := List.map_congr_left fun backend (_ : backend ∈ backends) => rateCell_eq h backend
  exact congrArg (fun cells => key.map Label.text ++ cells ++ ratios values backends) hrates

/-- A row of medians says what the columns say. -/
theorem tableRow_isRow {kind : Kind} {rows : List Row} {key : Key}
    (hlen : key.length = kind.keyHeadings.length)
    (h : ∀ backend, values.get? backend = median? (kind.samples rows key backend)) :
    kind.IsRow rows backends key (tableRow key values backends) := by
  rw [tableRow_eq h]
  have hratios : (ratios values backends).length = (ratioHeadings backends).length := by
    unfold ratios ratioHeadings
    split_ifs <;> rfl
  refine ⟨?_, ?_⟩
  · rw [← Kind.headings_eq]
    unfold Kind.headings
    simp only [List.length_append, List.length_map, hlen, hratios]
  · rw [← Kind.headings_eq]
    unfold Kind.headings
    rw [List.zip_append (by simp [hlen]), List.zip_append (by simp [hlen]), List.zip_map']
    unfold Kind.columns ratios ratioHeadings ratioCell patchedRatioCell
    rw [ratioCellOf_eq h, ratioCellOf_eq h]
    split_ifs <;> rfl

/-- The keys of an aggregation in order. -/
theorem pySorted_keys {keys out : List Key} (hn : keys.Nodup)
    (h : pySorted Key.comparable (· ≤ ·) keys = .ok out) :
    out.Pairwise (fun a b => Key.comparable a b = true ∧ a < b)
      ∧ ∀ key, key ∈ out ↔ key ∈ keys := by
  obtain ⟨hc, rfl⟩ := pySorted_eq_ok.1 h
  have hperm := List.perm_insertionSort (· ≤ ·) keys
  have hne := hperm.nodup_iff.2 hn
  have hcomp := (hperm.pairwise_iff fun {a b} => Key.comparable_symm).2 hc
  have hle := List.pairwise_insertionSort (· ≤ ·) keys
  refine ⟨?_, fun key => hperm.mem_iff⟩
  exact (hcomp.and (hle.and hne)).imp fun h => ⟨h.1, lt_of_le_of_ne h.2.1 h.2.2⟩

/-- The table of a kind tabulates its rows. -/
theorem table_tabulates {kind : Kind} {rows : List Row} {table : Table}
    (hkind : kind.keyHeadings.length = kind.keyFields.length)
    (h : kind.table backends (rows.filter kind.selects) = .ok table) :
    ∃ keys, kind.Tabulates rows backends keys table := by
  unfold Kind.table at h
  obtain ⟨data, hdata, h⟩ := bind_eq_ok.1 h
  obtain ⟨keys, hkeys, h⟩ := bind_eq_ok.1 h
  obtain rfl := Except.ok.inj h
  rw [aggregate_eq] at hdata
  split_ifs at hdata with hlack
  obtain rfl := Except.ok.inj hdata
  push Not at hlack
  obtain ⟨hinc, hmem⟩ := pySorted_keys (Dict.nodup_keys _) hkeys
  have hmem' : ∀ key, key ∈ keys ↔ ∃ row ∈ rows, kind.selects row = true ∧ kind.metric row ≠ none ∧
      keyOf kind.keyFields row = some key := by
    intro key
    rw [hmem, mem_keys_medians hlack]
    simp only [List.mem_filter, and_assoc]
  refine ⟨keys, rfl, hinc, hmem', ?_⟩
  rw [List.forall₂_map_right_iff, List.forall₂_same]
  intro key hkey
  obtain ⟨row, _, _, _, hk⟩ := (hmem' key).1 hkey
  refine tableRow_isRow ((length_of_keyOf hk).trans hkind.symm) fun backend => ?_
  unfold Kind.samples
  rw [← get?_medians, Dict.get?_getD_empty]

end Tables

/-! ## The end of the text -/

section Ends

/-- The last line ends in a character that is no white space; the empty line after it is the newline
at the end of the text. -/
def EndsInText (lines : List String) : Prop :=
  ∃ front text c, isPySpace c = false ∧ lines = front ++ [text ++ String.singleton c, ""]

theorem rstrip_singleton {c : Char} (hc : isPySpace c = false) (text : String) :
    rstrip (text ++ String.singleton c ++ "\n") = text ++ String.singleton c := by
  have hnewline : isPySpace '\n' = true := by decide
  apply String.toList_injective
  unfold rstrip
  simp [hc, hnewline]

theorem intercalate_emptyLine (lines : List String) (line : String) :
    "\n".intercalate (lines ++ [line, ""]) = "\n".intercalate (lines ++ [line]) ++ "\n" := by
  rw [List.append_cons, String.intercalate_append_of_ne_nil (by simp) (by simp),
    String.intercalate_singleton, String.append_empty]

variable {α : Type} {lines : List String}

theorem EndsInText.bar (front : List String) (text : String) :
    EndsInText (front ++ [text ++ "|", ""]) := ⟨front, text, '|', by decide, rfl⟩

theorem EndsInText.append (h : EndsInText lines) (front : List String) :
    EndsInText (front ++ lines) := by
  obtain ⟨front', text, c, hc, rfl⟩ := h
  exact ⟨front ++ front', text, c, hc, by simp⟩

theorem EndsInText.flatMap {f : α → List String} {xs : List α} (hne : xs ≠ [])
    (h : ∀ x ∈ xs, EndsInText (f x)) : EndsInText (xs.flatMap f) := by
  obtain ⟨xs, x, rfl⟩ := (List.eq_nil_or_concat' xs).resolve_left hne
  rw [List.flatMap_append, List.flatMap_singleton]
  exact (h x (by simp)).append _

/-- Only the last newline is stripped, and put back. -/
theorem EndsInText.document (h : EndsInText lines) : document lines = "\n".intercalate lines := by
  obtain ⟨front, text, c, hc, rfl⟩ := h
  unfold Summary.document
  rw [intercalate_emptyLine]
  rcases eq_or_ne front [] with rfl | hne
  · rw [List.nil_append, String.intercalate_singleton, rstrip_singleton hc]
  · rw [String.intercalate_append_of_ne_nil hne (by simp), String.intercalate_singleton,
      ← String.append_assoc, rstrip_singleton hc]

theorem header_ends (title : String) : EndsInText (header title) :=
  ⟨["# " ++ title, "", "> Values are medians of the raw samples. Higher is better.",
    "> Compare backends within one architecture; runner hardware differs across architectures."],
    "> GitHub-hosted runner performance can vary between workflow runs", '.', by decide, rfl⟩

end Ends

/-! ## The document -/

section Document

/-- A line of a table. -/
def barred (cells : List String) : String := "| " ++ " | ".intercalate cells ++ " |"

/-- The pipes of a text with a backslash before each. -/
def pipesEscaped (text : String) : String :=
  String.ofList (text.toList.flatMap fun c => if c = '|' then ['\\', '|'] else [c])

/-- The lines of a Markdown table: the headings, a rule with a dash cell for each of them, the rows,
and an empty line. -/
def markdownTable (headings : List String) (rows : List (List String)) : List String :=
  [barred headings, barred (List.replicate headings.length "---")]
    ++ rows.map (fun cells => barred (cells.map pipesEscaped)) ++ [""]

/-- What a section has about a kind: nothing without rows of the kind, else its title and its
table. -/
def Kind.IsPart (kind : Kind) (rows : List Row) (backends : List Label) (lines : List String) :
    Prop :=
  if ∃ row ∈ rows, kind.selects row = true then
    ∃ keys table, kind.Tabulates rows backends keys table ∧
      lines = ["### " ++ kind.title, ""] ++ markdownTable table.headings table.rows
  else lines = []

/-- What the version table shows for a backend: the version of its last row, if that has one. -/
def versionShown (rows : List Row) (backend : Label) : String :=
  match (rows.filter fun row => row.backend = some backend).getLast? with
  | some row => (row.version.getD (.str "unknown")).text
  | none => ""

/-- `lines` is the section of an architecture whose rows are `rows`. -/
def IsSection (rows : List Row) (architecture : Label) (lines : List String) : Prop :=
  ∃ backends primitiveLines handshakeLines transferLines,
    InOrder backendRank (fun name => ∃ row ∈ rows, row.backend = some name) backends ∧
    primitive.IsPart rows backends primitiveLines ∧
    handshake.IsPart rows backends handshakeLines ∧
    transfer.IsPart rows backends transferLines ∧
    lines = ["## Architecture: `" ++ architecture.text ++ "`", ""]
      ++ markdownTable ["Backend", "Version"]
        (backends.map fun backend => [displayBackend backend, versionShown rows backend])
      ++ primitiveLines ++ handshakeLines ++ transferLines

theorem tableLines_eq (headings : List String) (rows : List (List String)) :
    tableLines headings rows = markdownTable headings rows := by
  unfold tableLines
  rw [List.map_const']
  rfl

theorem versionLines_eq (backends : List Label) (rows : List Row) : versionLines backends rows
    = markdownTable ["Backend", "Version"]
      (backends.map fun backend => [displayBackend backend, versionShown rows backend]) := by
  have hversion : ∀ backend, (((versions rows).get? (some backend)).getD (.str "")).text
      = versionShown rows backend := by
    intro backend
    unfold versions versionShown
    rw [Dict.get?_lasts]
    cases (rows.filter (·.backend = some backend)).getLast? with
    | none => rfl
    | some row => rfl
  unfold versionLines
  rw [tableLines_eq]
  simp only [hversion]

theorem lines_isPart {kind : Kind} {rows : List Row} {backends : List Label} {lines : List String}
    (hkind : kind.keyHeadings.length = kind.keyFields.length)
    (h : kind.lines backends rows = .ok lines) : kind.IsPart rows backends lines := by
  have hiff : rows.filter kind.selects = [] ↔ ¬ ∃ row ∈ rows, kind.selects row = true := by
    simp [List.filter_eq_nil_iff]
  unfold Kind.lines at h
  unfold Kind.IsPart
  by_cases hrows : rows.filter kind.selects = []
  · rw [if_pos hrows] at h
    rw [if_neg (hiff.1 hrows)]
    exact (Except.ok.inj h).symm
  · rw [if_neg hrows] at h
    rw [if_pos (not_not.1 fun hn => hrows (hiff.2 hn))]
    obtain ⟨table, ht, h⟩ := bind_eq_ok.1 h
    obtain ⟨keys, hkeys⟩ := table_tabulates hkind ht
    rw [tableLines_eq] at h
    exact ⟨keys, table, hkeys, (Except.ok.inj h).symm⟩

theorem require_eq_ok {α : Type} {field : Option α} {value : α} :
    require field = .ok value ↔ field = some value := by
  rcases field with _ | value'
  · simp [require]
  · simp [require]

theorem renderArchitecture_isSection {rows : List Row} {architecture : Label}
    {lines : List String} (h : renderArchitecture rows architecture = .ok lines) :
    IsSection rows architecture lines := by
  unfold renderArchitecture at h
  obtain ⟨names, hnames, h⟩ := bind_eq_ok.1 h
  obtain ⟨backends, hback, h⟩ := bind_eq_ok.1 h
  obtain ⟨primitiveLines, hprim, h⟩ := bind_eq_ok.1 h
  obtain ⟨handshakeLines, hhand, h⟩ := bind_eq_ok.1 h
  obtain ⟨transferLines, htrans, h⟩ := bind_eq_ok.1 h
  obtain ⟨hinc, hmem⟩ := sortByRank_inOrder (List.nodup_dedup names) hback
  rw [versionLines_eq] at h
  refine ⟨backends, primitiveLines, handshakeLines, transferLines, ⟨hinc, fun name => ?_⟩,
    lines_isPart rfl hprim, lines_isPart rfl hhand, lines_isPart rfl htrans,
    (Except.ok.inj h).symm⟩
  rw [hmem, List.mem_dedup, mem_of_mapM hnames]
  simp only [require_eq_ok]

theorem byArchitecture_get? (rows : List Row) (architecture : Label) :
    ((byArchitecture rows).get? architecture).getD []
      = rows.filter (·.architectureName = architecture) := by
  unfold byArchitecture
  rw [Dict.get?_groups]
  split_ifs with h
  · rw [h, Option.getD_none]
  · rw [Option.getD_some, List.map_id]

theorem barred_eq (cells : List String) :
    barred cells = "| " ++ " | ".intercalate cells ++ " " ++ "|" :=
  String.toList_injective (by simp [barred])

theorem markdownTable_ends (headings : List String) (rows : List (List String)) :
    EndsInText (markdownTable headings rows) := by
  unfold markdownTable
  rcases List.eq_nil_or_concat' rows with rfl | ⟨rows, row, rfl⟩
  · rw [barred_eq (List.replicate _ _)]
    exact .bar [barred headings] _
  · rw [List.map_append, List.map_singleton, barred_eq (row.map pipesEscaped), List.append_assoc,
      List.append_assoc]
    exact (EndsInText.bar (rows.map _) _).append _

theorem Kind.IsPart.ends {kind : Kind} {rows : List Row} {backends : List Label}
    {lines : List String} (h : kind.IsPart rows backends lines) :
    lines = [] ∨ EndsInText lines := by
  unfold Kind.IsPart at h
  split_ifs at h with hrows
  · obtain ⟨keys, table, -, rfl⟩ := h
    exact .inr ((markdownTable_ends _ _).append _)
  · exact .inl h

theorem EndsInText.append_part {lines part : List String} (h : EndsInText lines)
    (hpart : part = [] ∨ EndsInText part) : EndsInText (lines ++ part) := by
  rcases hpart with rfl | hpart
  · rwa [List.append_nil]
  · exact hpart.append lines

theorem IsSection.ends {rows : List Row} {architecture : Label} {lines : List String}
    (h : IsSection rows architecture lines) : EndsInText lines := by
  obtain ⟨backends, primitiveLines, handshakeLines, transferLines, -, hprimitive, hhandshake,
    htransfer, rfl⟩ := h
  exact ((((markdownTable_ends _ _).append _).append_part hprimitive.ends).append_part
    hhandshake.ends).append_part htransfer.ends

/-- `text` has a section for each architecture that occurs, made of its rows alone. -/
def IsSummary (rows : List Row) (title text : String) : Prop :=
  ∃ (architectures : List Label) (sections : Label → List String),
    InOrder architectureRank (fun name => ∃ row ∈ rows, row.architectureName = name)
      architectures ∧
    text = "\n".intercalate (header title ++ architectures.flatMap sections) ∧
    ∀ architecture ∈ architectures,
      renderArchitecture (rows.filter (·.architectureName = architecture)) architecture
        = .ok (sections architecture) ∧
      IsSection (rows.filter (·.architectureName = architecture)) architecture
        (sections architecture)

/-- The document of `render` holds the medians of the samples, and dashes where there are none. -/
theorem render_tables {rows : List Row} {title text : String} (h : render rows title = .ok text) :
    IsSummary rows title text ∧ ∀ samples, rateCell samples = dash ↔ samples = [] := by
  refine ⟨?_, fun samples => rateCell_eq_dash⟩
  unfold render at h
  obtain ⟨architectures, harch, h⟩ := bind_eq_ok.1 h
  obtain ⟨parts, hparts, h⟩ := bind_eq_ok.1 h
  simp only [byArchitecture_get?] at hparts
  obtain ⟨hinc, hmem⟩ := sortByRank_inOrder (Dict.nodup_keys _) harch
  let sections (architecture : Label) : List String :=
    (renderArchitecture (rows.filter (·.architectureName = architecture))
      architecture).toOption.getD []
  obtain ⟨hmap, hsec⟩ := eq_map_of_mapM (g := sections)
    (fun _ _ hpart => by simp only [sections, hpart]; rfl) hparts
  have hsection : ∀ architecture ∈ architectures,
      IsSection (rows.filter (·.architectureName = architecture)) architecture
        (sections architecture) :=
    fun architecture ha => renderArchitecture_isSection (hsec architecture ha)
  have hends : EndsInText (header title ++ architectures.flatMap sections) := by
    rcases eq_or_ne architectures [] with rfl | hne
    · rw [List.flatMap_nil, List.append_nil]
      exact header_ends title
    · exact (EndsInText.flatMap hne fun architecture ha =>
        (hsection architecture ha).ends).append _
  refine ⟨architectures, sections, ⟨hinc, fun name => ?_⟩, ?_, fun architecture ha => ?_⟩
  · rw [hmem]
    exact Dict.mem_keys_groups _ _
  · rw [← Except.ok.inj h, hmap, ← List.flatMap_def, hends.document]
  · exact ⟨hsec architecture ha, hsection architecture ha⟩

/-- A row of the AEAD program. -/
def aeadRow (backend version : String) (rate : ℚ) : Row where
  architecture := some (.str "arm64")
  backend := some (.str backend)
  version := some (.str version)
  benchmark := none
  algorithm := some (.str "aes-128-gcm")
  operation := some (.str "seal")
  cipher := none
  messageBytes := some (.int 16)
  mibPerSecond := some rate
  handshakesPerSecond := none

/-- Two samples of OpenSSL, one of LibreSSL, and a row of another size without a sample of
OpenSSL. -/
def twoBackends : List Row :=
  [aeadRow "openssl" "3" 5, aeadRow "libressl" "4|b" 2, aeadRow "openssl" "3" 7,
    { aeadRow "libressl" "4|b" 3 with messageBytes := some (.int 64) }]

def twoBackendsLines : List String :=
  ["## Architecture: `arm64`", "", "| Backend | Version |", "| --- | --- |", "| OpenSSL | 3 |",
    "| LibreSSL baseline | 4\\|b |", "", "### AEAD primitive throughput", "",
    "| Algorithm | Operation | Bytes | OpenSSL MiB/s | LibreSSL baseline MiB/s "
      ++ "| OpenSSL / baseline |",
    "| --- | --- | --- | --- | --- | --- |",
    "| aes-128-gcm | seal | 16 | 6.00 | 2.00 | 3.00× |",
    "| aes-128-gcm | seal | 64 | — | 3.00 | — |", ""]

theorem renderArchitecture_twoBackends :
    renderArchitecture twoBackends (.str "arm64") = .ok twoBackendsLines := by
  decide +kernel

theorem render_twoBackends :
    render twoBackends "AEAD" = .ok (document (header "AEAD" ++ twoBackendsLines)) := by
  have harchitectures : architectureOrder (byArchitecture twoBackends).keys
      = .ok [.str "arm64"] := by decide +kernel
  have hrows : ((byArchitecture twoBackends).get? (.str "arm64")).getD [] = twoBackends := by
    decide +kernel
  have hsections : ([Label.str "arm64"].mapM fun architecture => renderArchitecture
      (((byArchitecture twoBackends).get? architecture).getD []) architecture)
      = .ok [twoBackendsLines] := by
    rw [List.mapM_cons, hrows, renderArchitecture_twoBackends]
    rfl
  unfold render
  exact bind_eq_ok.2 ⟨_, harchitectures, bind_eq_ok.2 ⟨_, hsections, by
    rw [List.flatten_singleton]
    rfl⟩⟩

theorem render_tables_twoBackends :
    render twoBackends "AEAD"
        = .ok ("\n".intercalate (header "AEAD" ++ twoBackendsLines)) ∧
      IsSummary twoBackends "AEAD" ("\n".intercalate (header "AEAD" ++ twoBackendsLines)) := by
  have hends : EndsInText (header "AEAD" ++ twoBackendsLines) :=
    (renderArchitecture_isSection renderArchitecture_twoBackends).ends.append _
  have hrender := render_twoBackends
  rw [hends.document] at hrender
  exact ⟨hrender, (render_tables hrender).1⟩

end Document

end OfbBench.Summary
