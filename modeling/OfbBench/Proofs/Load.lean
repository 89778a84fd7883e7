import OfbBench.Lib.Except
import OfbBench.Load

/-!
# What `load_rows` loads

The rows are the decoded lines of the files in the order of their paths, whatever order the file
system lists a directory in (`main_listing`). The script stops at the first line that is neither
blank nor decoded, which is named with its number if it is no JSON, at the exception of a file that
cannot be read to its end, or when there is no row at all, and at nothing else (`loadRows_spec`).
-/

namespace OfbBench.Summary

/-! ## Paths -/

theorem components_injective : Function.Injective components := by
  intro a b h
  have hsplit := congrArg (List.intercalate ['/']) h
  unfold components at hsplit
  rw [List.intercalate_splitOn, List.intercalate_splitOn] at hsplit
  exact String.toList_injective hsplit

instance : Std.Total fun a b : String => components a ≤ components b :=
  ⟨fun a b => le_total (components a) (components b)⟩

instance : IsTrans String fun a b => components a ≤ components b :=
  ⟨fun _ _ _ hab hbc => le_trans hab hbc⟩

instance : Std.Antisymm fun a b : String => components a ≤ components b :=
  ⟨fun _ _ hab hba => components_injective (le_antisymm hab hba)⟩

theorem sortPaths_perm {paths paths' : List String} (h : paths.Perm paths') :
    sortPaths paths = sortPaths paths' := insertionSort_perm h

/-- The same files, but directories may be listed in another order. -/
structure Store.Relisted (store store' : Store) : Prop where
  stream : store'.stream = store.stream
  listing : ∀ path, Option.Rel List.Perm (store.listing path) (store'.listing path)

theorem Store.Relisted.filesAt {store store' : Store} (h : store.Relisted store') (path : String) :
    filesAt store' path = filesAt store path := by
  have hlisting := h.listing path
  unfold Summary.filesAt
  generalize store.listing path = found, store'.listing path = found' at hlisting ⊢
  cases hlisting with
  | none => rfl
  | some hperm => exact (sortPaths_perm hperm).symm

/-- The document does not depend on the order in which directories are listed. -/
theorem main_listing {store store' : Store} (explain : List Char → String) (paths : List String)
    (title : String) (h : store.Relisted store') :
    main store' explain paths title = main store explain paths title := by
  have hfiles : paths.flatMap (filesAt store') = paths.flatMap (filesAt store) :=
    List.flatMap_congr fun path _ => h.filesAt path
  have hrows : fileRows store' explain = fileRows store explain := by
    funext path
    unfold fileRows
    rw [h.stream]
  unfold main loadRows
  rw [hfiles, hrows]

/-- One directory. -/
def directory (found : List String) : Store where
  listing path := if path = "results" then some found else none
  stream path := ⟨"\x7b\"backend\":\"" ++ path ++ "\"\x7d\n", none⟩

theorem main_listing_directory :
    main (directory ["results/b.jsonl", "results/a.jsonl"]) String.ofList ["results"] "Benchmarks"
      = main (directory ["results/a.jsonl", "results/b.jsonl"]) String.ofList ["results"]
        "Benchmarks" := by
  refine main_listing String.ofList ["results"] "Benchmarks" ⟨rfl, fun path => ?_⟩
  unfold directory
  simp only
  split_ifs with hpath
  · exact .some (List.Perm.swap ..)
  · exact .none

/-! ## Lines -/

section Lines

variable {store : Store} {explain : List Char → String} {path : String} {n : ℕ}

/-- The lines of a text that are decoded. -/
def recordLines (lines : List (List Char)) : List (List Char) :=
  lines.filter fun line => ¬ isBlank line

/-- A line that is passed over or decoded. -/
def Readable (line : List Char) : Prop := isBlank line = true ∨ ∃ row, decodeLine line = .ok row

theorem lineRows_ok {lines : List (List Char)} {rows : List Json} :
    lineRows explain path n lines = .ok rows ↔ (recordLines lines).mapM decodeLine = .ok rows := by
  induction lines generalizing n rows with
  | nil =>
    rw [lineRows, recordLines, List.filter_nil, List.mapM_nil]
    simp only [pure, Except.pure, Except.ok.injEq]
  | cons line rest ih =>
    unfold lineRows recordLines
    by_cases hblank : isBlank line
    · rw [if_pos hblank, List.filter_cons_of_neg (by simpa using hblank)]
      exact ih
    rw [if_neg hblank, List.filter_cons_of_pos (by simpa using hblank), List.mapM_cons]
    rcases decodeLine line with refusal | row
    · constructor
      · intro h
        cases h
      · intro h
        cases h
    · change _ ↔ ((recordLines rest).mapM decodeLine >>= fun rows => pure (row :: rows)) = _
      simp only [bind_eq_ok, ih, pure, Except.pure, Except.ok.injEq]

/-- The line that stops the loop. -/
structure StopsAt (lines : List (List Char)) (before : List (List Char)) (line : List Char)
    (refusal : Json.Refusal) : Prop where
  split : ∃ after, lines = before ++ line :: after
  readable : ∀ line ∈ before, Readable line
  not_blank : isBlank line = false
  refused : decodeLine line = .error refusal

theorem StopsAt.not_readable {lines before : List (List Char)} {line : List Char}
    {refusal : Json.Refusal} (h : StopsAt lines before line refusal) : ¬ Readable line := by
  rintro (hblank | ⟨row, hrow⟩)
  · exact Bool.false_ne_true (h.not_blank.symm.trans hblank)
  · cases h.refused.symm.trans hrow

/-- A readable first line only moves the number on. -/
theorem stopsAt_cons {first : List Char} {rest : List (List Char)} {exception : Raised}
    (hfirst : Readable first) :
    (∃ before line refusal, StopsAt (first :: rest) before line refusal
        ∧ exception = lineError explain path (n + before.length) line refusal) ↔
      ∃ before line refusal, StopsAt rest before line refusal
        ∧ exception = lineError explain path (n + 1 + before.length) line refusal := by
  constructor
  · rintro ⟨before, line, refusal, hstops, rfl⟩
    obtain ⟨after, hsplit⟩ := hstops.split
    cases before with
    | nil =>
      obtain ⟨rfl, -⟩ := List.cons.inj hsplit
      exact absurd hfirst hstops.not_readable
    | cons _ before =>
      obtain ⟨rfl, hrest⟩ := List.cons.inj hsplit
      refine ⟨before, line, refusal, ⟨⟨after, hrest⟩, (List.forall_mem_cons.1 hstops.readable).2,
        hstops.not_blank, hstops.refused⟩, ?_⟩
      rw [List.length_cons, Nat.add_assoc n 1, Nat.add_comm 1]
  · rintro ⟨before, line, refusal, ⟨⟨after, rfl⟩, hbefore, hblank, hrefused⟩, rfl⟩
    refine ⟨first :: before, line, refusal,
      ⟨⟨after, rfl⟩, List.forall_mem_cons.2 ⟨hfirst, hbefore⟩, hblank, hrefused⟩, ?_⟩
    rw [List.length_cons, Nat.add_assoc n 1, Nat.add_comm 1]

theorem lineRows_error {lines : List (List Char)} {exception : Raised} :
    lineRows explain path n lines = .error exception ↔ ∃ before line refusal,
      StopsAt lines before line refusal
        ∧ exception = lineError explain path (n + before.length) line refusal := by
  induction lines generalizing n with
  | nil =>
    constructor
    · intro h
      cases h
    · rintro ⟨before, line, refusal, hstops, -⟩
      obtain ⟨after, hsplit⟩ := hstops.split
      simp at hsplit
  | cons first rest ih =>
    unfold lineRows
    by_cases hblank : isBlank first
    · rw [if_pos hblank, ih, stopsAt_cons (.inl hblank)]
    rw [if_neg hblank]
    rcases hrow : decodeLine first with refusal | row
    · simp only [Except.error.injEq]
      constructor
      · rintro rfl
        exact ⟨[], first, refusal, ⟨⟨rest, rfl⟩, by simp, by simpa using hblank, hrow⟩, rfl⟩
      · rintro ⟨before, line, refusal', hstops, rfl⟩
        obtain ⟨after, hsplit⟩ := hstops.split
        cases before with
        | nil =>
          obtain ⟨rfl, -⟩ := List.cons.inj hsplit
          obtain rfl : refusal = refusal' := Except.error.inj (hrow.symm.trans hstops.refused)
          rfl
        | cons _ before =>
          obtain ⟨rfl, -⟩ := List.cons.inj hsplit
          obtain hfirst | ⟨row, h⟩ := hstops.readable _ List.mem_cons_self
          · exact absurd hfirst hblank
          · cases hrow.symm.trans h
    · rw [stopsAt_cons (.inr ⟨row, hrow⟩), ← ih]
      simp only
      rcases lineRows explain path (n + 1) rest with error | rows
      · exact Iff.rfl
      · simp [bind, Except.bind, pure, Except.pure]

theorem exists_lineRows_iff {lines : List (List Char)} :
    (∃ rows, lineRows explain path n lines = .ok rows) ↔ ∀ line ∈ lines, Readable line := by
  simp only [lineRows_ok, exists_mapM_iff, recordLines, List.mem_filter, Readable,
    or_iff_not_imp_left, and_imp, decide_eq_true_eq, Bool.not_eq_true]

end Lines

/-! ## Files -/

section Files

variable (store : Store) (explain : List Char → String)

/-- `rows` are the decoded lines of a file that is read to its end. -/
def Store.Reads (file : String) (rows : List Json) : Prop :=
  (store.stream file).failure = none ∧
    (recordLines (fileLines (store.stream file).text)).mapM decodeLine = .ok rows

/-- `exception` is why a file is not read to its end: a line stops the loop, or no line does and the
file yields no more. -/
def Store.Stops (file : String) (exception : Raised) : Prop :=
  (∃ before line refusal, StopsAt (fileLines (store.stream file).text) before line refusal ∧
    exception = lineError explain file (before.length + 1) line refusal) ∨
  (∀ line ∈ fileLines (store.stream file).text, Readable line) ∧
    (store.stream file).failure = some exception

/-- `rows` are the rows of the files, one file after the other. -/
def Store.Holds (files : List String) (rows : List Json) : Prop :=
  ∃ parts, List.Forall₂ store.Reads files parts ∧ rows = parts.flatten

variable {store explain} {paths : List String}

theorem fileRows_ok {file : String} {rows : List Json} :
    fileRows store explain file = .ok rows ↔ store.Reads file rows := by
  unfold fileRows Store.Reads
  simp only [bind_eq_ok, lineRows_ok]
  rcases (store.stream file).failure with _ | exception
  · constructor
    · rintro ⟨rows', hrows, h⟩
      obtain rfl := Except.ok.inj h
      exact ⟨rfl, hrows⟩
    · rintro ⟨-, hrows⟩
      exact ⟨rows, hrows, rfl⟩
  · simp

theorem fileRows_error {file : String} {exception : Raised} :
    fileRows store explain file = .error exception ↔ store.Stops explain file exception := by
  unfold fileRows Store.Stops
  simp only [Nat.add_comm _ 1, ← lineRows_error]
  rw [← @exists_lineRows_iff explain file 1]
  rcases lineRows explain file 1 (fileLines (store.stream file).text) with error | rows
  · simp [bind, Except.bind]
  · rcases (store.stream file).failure with _ | failure
    · simp [bind, Except.bind, pure, Except.pure]
    · simp [bind, Except.bind]

theorem mapM_fileRows {files : List String} {parts : List (List Json)} :
    files.mapM (fileRows store explain) = .ok parts ↔ List.Forall₂ store.Reads files parts := by
  simp only [mapM_eq_ok, fileRows_ok]

/-- What the script is stopped by: the first file it cannot read to its end, or that there is no
row. -/
def Store.Rejects (store : Store) (explain : List Char → String) (files : List String)
    (exception : Raised) : Prop :=
  (∃ before file after, files = before ++ file :: after ∧
    (∀ file ∈ before, ∃ rows, store.Reads file rows) ∧ store.Stops explain file exception) ∨
  store.Holds files [] ∧ exception = .valueError "no JSON Lines benchmark results found"

theorem loadRows_ok {rows : List Json} : loadRows store explain paths = .ok rows ↔
    store.Holds (paths.flatMap (filesAt store)) rows ∧ rows ≠ [] := by
  unfold loadRows Store.Holds
  simp only [bind_eq_ok, mapM_fileRows]
  constructor
  · rintro ⟨parts, hparts, h⟩
    split_ifs at h with hempty
    obtain rfl := Except.ok.inj h
    exact ⟨⟨parts, hparts, rfl⟩, by simpa using hempty⟩
  · rintro ⟨⟨parts, hparts, rfl⟩, hne⟩
    refine ⟨parts, hparts, ?_⟩
    rw [if_neg (by simpa using hne)]
    rfl

theorem loadRows_error {exception : Raised} : loadRows store explain paths = .error exception ↔
    store.Rejects explain (paths.flatMap (filesAt store)) exception := by
  unfold loadRows Store.Rejects
  generalize paths.flatMap (filesAt store) = files
  simp only [← @fileRows_ok store explain, ← fileRows_error]
  rw [← mapM_eq_error]
  rcases hparts : files.mapM (fileRows store explain) with error | parts
  · have hnot : ¬ store.Holds files [] := by
      rintro ⟨parts, hall, -⟩
      rw [← @mapM_fileRows store explain, hparts] at hall
      cases hall
    simp [hnot, bind, Except.bind]
  · have hholds : store.Holds files [] ↔ parts.flatten = [] := by
      constructor
      · rintro ⟨parts', hall, h⟩
        rw [← @mapM_fileRows store explain, hparts, Except.ok.injEq] at hall
        rw [hall, ← h]
      · exact fun h => ⟨parts, mapM_fileRows.1 hparts, h.symm⟩
    rw [hholds]
    change (if parts.flatten.isEmpty then Except.error _ else .ok parts.flatten) = _ ↔ _
    simp only [List.isEmpty_iff, reduceCtorEq, false_or]
    split_ifs with hempty
    · simp only [hempty, true_and, Except.error.injEq, eq_comm]
    · simp only [hempty, false_and]

/-- Either the rows are loaded, those of every line that is not blank of every file in the order of
the paths, or the script raises what stopped it first. -/
theorem loadRows_spec (store : Store) (explain : List Char → String) (paths : List String) :
    (∀ rows, loadRows store explain paths = .ok rows ↔
      store.Holds (paths.flatMap (filesAt store)) rows ∧ rows ≠ []) ∧
    ∀ exception, loadRows store explain paths = .error exception ↔
      store.Rejects explain (paths.flatMap (filesAt store)) exception :=
  ⟨fun _ => loadRows_ok, fun _ => loadRows_error⟩

end Files

end OfbBench.Summary
