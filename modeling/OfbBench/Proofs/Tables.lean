import OfbBench.Lib.Markdown
import OfbBench.Proofs.Permutation

/-!
# The tables of the summary as Markdown

`append_table` escapes the pipes of the cells of a body row, but no backslashes, and it escapes
nothing in the headings, which hold the names of the backends. So a table is read back from its text
for most names, but not for all: `render_decodes_iff` says for which rows every table is.
-/

namespace OfbBench.Summary

open Markdown

/-! ## The document in pieces -/

/-- A part of a document: a line, or a table with the empty line after it. -/
inductive Piece
  | line (text : String)
  | table (t : Table)

def Piece.lines : Piece → List String
  | .line text => [text]
  | .table t => tableLines t.headings t.rows

/-- The table of `versionLines`. -/
def versionTable (backends : List Label) (rows : List Row) : Table :=
  ⟨["Backend", "Version"], backends.map fun backend =>
    [displayBackend backend, (((versions rows).get? (some backend)).getD (.str "")).text]⟩

def Kind.pieces (kind : Kind) (backends : List Label) (rows : List Row) :
    Except PyError (List Piece) :=
  if rows.filter kind.selects = [] then pure []
  else do
    let table ← kind.table backends (rows.filter kind.selects)
    pure [.line ("### " ++ kind.title), .line "", .table table]

def architecturePieces (rows : List Row) (architecture : Label) : Except PyError (List Piece) := do
  let names ← rows.mapM fun row => require row.backend
  let backends ← backendOrder names.dedup
  let primitivePieces ← primitive.pieces backends rows
  let handshakePieces ← handshake.pieces backends rows
  let transferPieces ← transfer.pieces backends rows
  pure ([.line ("## Architecture: `" ++ architecture.text ++ "`"), .line "",
      .table (versionTable backends rows)]
    ++ primitivePieces ++ handshakePieces ++ transferPieces)

/-- The pieces of the document of `render`. -/
def pieces (rows : List Row) (title : String) : Except PyError (List Piece) := do
  let architectures ← architectureOrder (byArchitecture rows).keys
  let sections ← architectures.mapM fun architecture =>
    architecturePieces (((byArchitecture rows).get? architecture).getD []) architecture
  pure ((header title).map .line ++ sections.flatten)

section Pieces

theorem flatMap_line (lines : List String) :
    (lines.map Piece.line).flatMap Piece.lines = lines := by
  rw [List.flatMap_map]
  exact List.flatMap_singleton' lines

theorem lines_eq_pieces (kind : Kind) (backends : List Label) (rows : List Row) :
    kind.lines backends rows = List.flatMap Piece.lines <$> kind.pieces backends rows := by
  unfold Kind.lines Kind.pieces
  split_ifs
  · rfl
  · rw [map_bind]
    simp only [map_pure]
    simp [Piece.lines]

theorem renderArchitecture_eq_pieces (rows : List Row) (architecture : Label) :
    renderArchitecture rows architecture
      = List.flatMap Piece.lines <$> architecturePieces rows architecture := by
  have hfirst : ∀ backends, ([.line ("## Architecture: `" ++ architecture.text ++ "`"), .line "",
      .table (versionTable backends rows)] : List Piece).flatMap Piece.lines
      = ["## Architecture: `" ++ architecture.text ++ "`", ""] ++ versionLines backends rows := by
    intro backends
    simp [Piece.lines, versionLines, versionTable]
  unfold renderArchitecture architecturePieces
  simp only [lines_eq_pieces, bind_map_left, map_bind, map_pure, List.flatMap_append, hfirst]

/-- The document is made of the pieces. -/
theorem render_eq_pieces (rows : List Row) (title : String) : render rows title
    = (fun parts => document (parts.flatMap Piece.lines)) <$> pieces rows title := by
  have hflatten : ∀ parts : List (List Piece),
      parts.flatten.flatMap Piece.lines = (parts.map (List.flatMap Piece.lines)).flatten := by
    intro parts
    induction parts with
    | nil => rfl
    | cons part parts ih => rw [List.flatten_cons, List.flatMap_append, ih, List.map_cons,
        List.flatten_cons]
  unfold render pieces
  simp only [renderArchitecture_eq_pieces, mapM_map, bind_map_left, map_bind, map_pure,
    List.flatMap_append, flatMap_line, hflatten]

end Pieces

/-! ## Tables that are read back -/

/-- The text of the lines of a table. -/
def Table.text (table : Table) : String :=
  "\n".intercalate (tableLines table.headings table.rows).dropLast

/-- The table is read back from its text, and its lines have the same number of cells. -/
structure Table.Decodes (table : Table) : Prop where
  decode : decodeTable table.text.toList = some (table.headings.map String.toList,
    table.rows.map fun row => row.map String.toList)
  width : ∀ row ∈ table.rows, row.length = table.headings.length

/-- The text of a body cell that is read back: it has no line break, and no backslash before a
backslash or a pipe. -/
def CellText (text : String) : Prop :=
  (∀ c ∈ text.toList, isLineBreak c = false) ∧ Unescaped text.toList

/-- The text of a heading that is read back has no pipe either. -/
def HeadingText (text : String) : Prop := CellText text ∧ '|' ∉ text.toList

section Decodes

theorem toList_tableLine {cells : List String} (h : cells ≠ []) :
    (tableLine cells).toList = rowText (cells.map String.toList) := by
  unfold tableLine rowText
  induction cells with
  | nil => exact absurd rfl h
  | cons cell cells ih =>
    rcases eq_or_ne cells [] with rfl | hne
    · simp
    · have hrest := ih hne
      simp only [String.toList_append] at hrest
      rw [String.intercalate_cons_of_ne_nil hne]
      simp only [String.toList_append, List.append_assoc, List.map_cons, List.flatMap_cons]
        at hrest ⊢
      simp_all

theorem toList_escape (text : String) : (escape text).toList = escapePipes text.toList :=
  String.toList_ofList

theorem forall_mem_escapePipes {text : List Char} :
    (∀ c ∈ escapePipes text, isLineBreak c = false) ↔ ∀ c ∈ text, isLineBreak c = false := by
  unfold escapePipes
  simp only [List.mem_flatMap, forall_exists_index, and_imp]
  constructor
  · intro h c hc
    by_cases hpipe : c = '|'
    · rw [hpipe]
      rfl
    · exact h c c hc (by simp [hpipe])
  · intro h d c hc hd
    split_ifs at hd with hpipe
    · simp only [List.mem_cons, List.not_mem_nil, or_false] at hd
      rcases hd with rfl | rfl
      · rfl
      · rfl
    · rw [List.mem_singleton] at hd
      rw [hd]
      exact h c hc

theorem forall_mem_rowText {cells : List (List Char)} :
    (∀ c ∈ rowText cells, isLineBreak c = false) ↔
      ∀ cell ∈ cells, ∀ c ∈ cell, isLineBreak c = false := by
  have hspace : isLineBreak ' ' = false := rfl
  have hpipe : isLineBreak '|' = false := rfl
  unfold rowText
  simp only [List.forall_mem_cons, List.mem_flatMap, forall_exists_index, and_imp, hpipe, true_and]
  constructor
  · intro h cell hcell c hc
    exact h c cell hcell (by simp [hc])
  · intro h c cell hcell hc
    simp only [List.mem_cons, List.mem_append, List.not_mem_nil, or_false] at hc
    rcases hc with rfl | hc | rfl | rfl
    · exact hspace
    · exact h cell hcell c hc
    · exact hspace
    · exact hpipe

variable {table : Table}

theorem toList_text (hne : table.headings ≠ []) (hrows : ∀ row ∈ table.rows, row ≠ []) :
    table.text.toList = ['\n'].intercalate
      (rowText (table.headings.map String.toList)
        :: rowText (table.headings.map fun _ => ['-', '-', '-'])
        :: table.rows.map fun row => rowText (row.map fun cell => escapePipes cell.toList)) := by
  have hbody : table.rows.map (fun row => (tableLine (row.map escape)).toList)
      = table.rows.map fun row => rowText (row.map fun cell => escapePipes cell.toList) := by
    refine List.map_congr_left fun row hrow => ?_
    rw [toList_tableLine (by simpa using hrows row hrow), List.map_map]
    simp only [Function.comp_def, toList_escape]
  have hnewline : "\n".toList = ['\n'] := rfl
  have hdashes : "---".toList = ['-', '-', '-'] := rfl
  unfold Table.text tableLines
  rw [List.dropLast_concat, String.toList_intercalate, hnewline]
  simp only [List.map_cons, List.map_map, Function.comp_def, toList_tableLine hne, hbody,
    List.cons_append, List.nil_append]
  rw [toList_tableLine (by simpa using hne), List.map_map]
  simp only [Function.comp_def, hdashes]

theorem decodeRow_headings (headings : List String) :
    decodeRow (rowText (headings.map String.toList)) = some (headings.map String.toList) ↔
      ∀ heading ∈ headings, Unescaped heading.toList ∧ '|' ∉ heading.toList := by
  rw [decodeRow_iff rfl, List.forall₂_same, List.forall_mem_map]
  simp only [reads_self]

theorem decodeRow_row (row : List String) :
    decodeRow (rowText (row.map fun cell => escapePipes cell.toList))
      = some (row.map String.toList) ↔ ∀ cell ∈ row, Unescaped cell.toList := by
  rw [decodeRow_iff (by simp), List.forall₂_map_left_iff, List.forall₂_map_right_iff,
    List.forall₂_same]
  simp only [reads_escapePipes]

/-- The lines of a table have no line break inside if and only if its texts have none. -/
theorem forall_mem_lines (table : Table) :
    (∀ line ∈ rowText (table.headings.map String.toList)
        :: rowText (table.headings.map fun _ => ['-', '-', '-'])
        :: table.rows.map (fun row => rowText (row.map fun cell => escapePipes cell.toList)),
        ∀ c ∈ line, isLineBreak c = false) ↔
      (∀ heading ∈ table.headings, ∀ c ∈ heading.toList, isLineBreak c = false) ∧
        ∀ row ∈ table.rows, ∀ cell ∈ row, ∀ c ∈ cell.toList, isLineBreak c = false := by
  have hsecond : ∀ c ∈ rowText (table.headings.map fun _ => ['-', '-', '-']),
      isLineBreak c = false := by
    rw [forall_mem_rowText, List.forall_mem_map]
    intro _ _ c hc
    obtain rfl : c = '-' := by simpa using hc
    rfl
  rw [List.forall_mem_cons, List.forall_mem_cons, and_iff_right hsecond, List.forall_mem_map]
  simp only [forall_mem_rowText, List.forall_mem_map, forall_mem_escapePipes]

/-- Which tables are read back. -/
theorem decodes_iff (hne : table.headings ≠ [])
    (hwidth : ∀ row ∈ table.rows, row.length = table.headings.length) :
    table.Decodes ↔ (∀ heading ∈ table.headings, HeadingText heading) ∧
      ∀ row ∈ table.rows, ∀ cell ∈ row, CellText cell := by
  have hrows : ∀ row ∈ table.rows, row ≠ [] := by
    rintro row hrow rfl
    exact hne (List.eq_nil_of_length_eq_zero (hwidth [] hrow).symm)
  have hiff : table.Decodes ↔ decodeTable table.text.toList = some
      (table.headings.map String.toList, table.rows.map fun row => row.map String.toList) :=
    ⟨fun h => h.decode, fun h => ⟨h, hwidth⟩⟩
  rw [hiff, toList_text hne hrows, decodeTable_iff (by simp), forall_mem_lines, decodeRow_headings,
    List.forall₂_map_left_iff, List.forall₂_map_right_iff, List.forall₂_same]
  simp only [decodeRow_row]
  unfold HeadingText CellText
  constructor
  · rintro ⟨⟨hbreak, hbreak'⟩, hheading, hcell⟩
    exact ⟨fun h hh => ⟨⟨hbreak h hh, (hheading h hh).1⟩, (hheading h hh).2⟩,
      fun row hr cell hc => ⟨hbreak' row hr cell hc, hcell row hr cell hc⟩⟩
  · rintro ⟨hheading, hcell⟩
    exact ⟨⟨fun h hh => (hheading h hh).1.1, fun row hr cell hc => (hcell row hr cell hc).1⟩,
      fun h hh => ⟨(hheading h hh).1.2, (hheading h hh).2⟩,
      fun row hr cell hc => (hcell row hr cell hc).2⟩

end Decodes

/-! ## The texts of the cells -/

/-- A text without a line break, a backslash or a pipe. -/
def Plain (text : String) : Prop :=
  ∀ c ∈ text.toList, isLineBreak c = false ∧ isEscapable c = false

instance : DecidablePred Plain := fun _ => List.decidableBAll _ _

section Texts

variable {text unit : String}

theorem unescaped_append {t u : List Char} (hu : ∀ c ∈ u, isEscapable c = false) :
    Unescaped (t ++ u) ↔ Unescaped t := by
  induction t with
  | nil =>
    refine iff_of_true ⟨fun h => ?_, fun h => ?_⟩ (by simp [Unescaped])
    · exact absurd (hu '\\' (h.subset (by simp))) (by decide)
    · exact absurd (hu '\\' (h.subset (by simp))) (by decide)
  | cons c t ih =>
    rw [List.cons_append, unescaped_cons, unescaped_cons, ih]
    refine and_congr_left' (not_congr (and_congr_right fun _ => ?_))
    rcases t with _ | ⟨d, t⟩
    · refine iff_of_false ?_ (by simp)
      rintro ⟨d, hd, hescapable⟩
      rw [hu d (List.mem_of_mem_head? hd)] at hescapable
      exact Bool.false_ne_true hescapable
    · rfl

theorem Plain.notMem (h : Plain text) : '|' ∉ text.toList := fun hmem =>
  absurd (h _ hmem).2 (by decide)

theorem cellText_append (h : Plain unit) : CellText (text ++ unit) ↔ CellText text := by
  unfold CellText
  rw [String.toList_append, unescaped_append fun c hc => (h c hc).2]
  simp only [List.forall_mem_append]
  rw [and_iff_left fun c hc => (h c hc).1]

theorem headingText_append (h : Plain unit) : HeadingText (text ++ unit) ↔ HeadingText text := by
  unfold HeadingText
  rw [cellText_append h, String.toList_append, List.mem_append, or_iff_left h.notMem]

theorem Plain.cellText (h : Plain text) : CellText text := by
  rw [← String.empty_append (s := text), cellText_append h]
  exact ⟨by simp, by simp [Unescaped]⟩

theorem Plain.headingText (h : Plain text) : HeadingText text := ⟨h.cellText, h.notMem⟩

theorem isDigit_plain {c : Char} (h : c.isDigit = true) :
    isLineBreak c = false ∧ isEscapable c = false := by
  refine ⟨?_, ?_⟩
  · by_contra hc
    rw [Bool.not_eq_false, isLineBreak, decide_eq_true_eq] at hc
    rcases hc with rfl | rfl
    · exact absurd h (by decide)
    · exact absurd h (by decide)
  · by_contra hc
    rw [Bool.not_eq_false, isEscapable, decide_eq_true_eq] at hc
    rcases hc with rfl | rfl
    · exact absurd h (by decide)
    · exact absurd h (by decide)

theorem mem_groupThousands {c : Char} {text : List Char} (h : c ∈ groupThousands text) :
    c = ',' ∨ c ∈ text := by
  fun_induction groupThousands text with
  | case1 a b d e rest ih =>
    simp only [List.mem_cons] at h ih ⊢
    tauto
  | case2 => exact .inr h

theorem plain_groupedDigits {n : ℕ} : ∀ c ∈ groupedDigits n,
    isLineBreak c = false ∧ isEscapable c = false := by
  intro c hc
  rcases mem_groupThousands (List.mem_reverse.1 hc) with rfl | hc
  · decide
  · exact isDigit_plain (isDigit_of_mem_toDigits c (List.mem_reverse.1 hc))

theorem plain_fixed {whole : ℕ → List Char}
    (h : ∀ n, ∀ c ∈ whole n, isLineBreak c = false ∧ isEscapable c = false) (digits : ℕ) (x : ℚ) :
    Plain (fixed whole digits x) := by
  unfold Plain fixed fixedText zeroPadded
  rw [String.toList_ofList]
  simp only [List.forall_mem_append, List.forall_mem_cons]
  refine ⟨?_, h _, by decide, ?_, fun c hc => isDigit_plain (isDigit_of_mem_toDigits c hc)⟩
  · split_ifs
    · simp only [List.forall_mem_singleton]
      decide
    · simp
  · intro c hc
    obtain rfl := List.eq_of_mem_replicate hc
    decide

theorem plain_rateCell (samples : List ℚ) : Plain (rateCell samples) := by
  unfold rateCell
  split_ifs
  · decide +kernel
  · exact plain_fixed (fun _ => plain_groupedDigits) _ _

theorem plain_quotientCell (digits : ℕ) (samples baseline : List ℚ) :
    Plain (quotientCell digits samples baseline) := by
  have htimes : Plain "×" := by decide +kernel
  unfold quotientCell
  split_ifs
  · decide +kernel
  · intro c hc
    rw [String.toList_append, List.mem_append] at hc
    rcases hc with hc | hc
    · exact plain_fixed (fun _ c hc => isDigit_plain (isDigit_of_mem_toDigits c hc)) _ _ c hc
    · exact htimes c hc

/-- The name that is shown for a backend is read back if and only if its own name is. -/
theorem displayBackend_iff {p : String → Prop} (h : ∀ {text}, Plain text → p text)
    (backend : Label) : p (displayBackend backend) ↔ p backend.text := by
  unfold displayBackend
  split_ifs with h1 h2 h3
  · subst h1
    exact iff_of_true (h (by decide +kernel)) (h (by decide +kernel))
  · subst h2
    exact iff_of_true (h (by decide +kernel)) (h (by decide +kernel))
  · subst h3
    exact iff_of_true (h (by decide +kernel)) (h (by decide +kernel))
  · rfl

end Texts

/-! ## Sections -/

section Sections

variable {rows : List Row} {backends : List Label}

theorem versionTable_decodes_iff : (versionTable backends rows).Decodes ↔
    ∀ backend ∈ backends, CellText backend.text ∧
      CellText (((versions rows).get? (some backend)).getD (.str "")).text := by
  have hheading : ∀ heading ∈ ["Backend", "Version"], HeadingText heading := by
    intro heading h
    refine Plain.headingText ?_
    revert heading
    decide +kernel
  have hwidth : ∀ row ∈ (versionTable backends rows).rows,
      row.length = (versionTable backends rows).headings.length := by
    intro row hrow
    obtain ⟨backend, -, rfl⟩ := List.mem_map.1 hrow
    rfl
  rw [decodes_iff (by simp [versionTable]) hwidth]
  unfold versionTable
  rw [and_iff_right hheading, List.forall_mem_map]
  simp only [List.forall_mem_cons, List.not_mem_nil, false_imp_iff, implies_true, and_true,
    displayBackend_iff (p := CellText) Plain.cellText]

/-- What the texts of a kind are like. -/
structure Kind.IsPlain (kind : Kind) : Prop where
  ne_nil : kind.keyHeadings ≠ []
  length_eq : kind.keyHeadings.length = kind.keyFields.length
  headings : ∀ heading ∈ kind.keyHeadings, Plain heading
  unit : Plain kind.unit

def kinds : List Kind := [primitive, handshake, transfer]

theorem forall_mem_kinds {p : Kind → Prop} :
    (∀ kind ∈ kinds, p kind) ↔ p primitive ∧ p handshake ∧ p transfer := by
  simp [kinds]

theorem kinds_isPlain : ∀ kind ∈ kinds, kind.IsPlain := by
  rw [forall_mem_kinds]
  refine ⟨?_, ?_, ?_⟩
  all_goals exact ⟨List.cons_ne_nil _ _, rfl, by decide +kernel, by decide +kernel⟩

/-- The key fields of the measured rows of a kind are read back. -/
def Kind.KeyTexts (kind : Kind) (rows : List Row) : Prop :=
  ∀ row ∈ rows, kind.selects row = true → kind.metric row ≠ none →
    ∀ key, keyOf kind.keyFields row = some key → ∀ label ∈ key, CellText label.text

theorem headings_iff {kind : Kind} (hkind : kind.IsPlain) :
    (∀ heading ∈ kind.columnHeadings backends, HeadingText heading) ↔
      ∀ backend ∈ backends, HeadingText backend.text := by
  have hkey : ∀ heading ∈ kind.keyHeadings, HeadingText heading := fun heading h =>
    (hkind.headings heading h).headingText
  have hratio : ∀ heading ∈ ratioHeadings backends, HeadingText heading := by
    intro heading h
    refine Plain.headingText ?_
    revert heading
    unfold ratioHeadings
    split_ifs
    all_goals decide +kernel
  rw [← kind.headings_eq]
  unfold Kind.headings
  rw [List.forall_mem_append, List.forall_mem_append, and_iff_right hkey, and_iff_left hratio,
    List.forall_mem_map]
  simp only [headingText_append hkind.unit, displayBackend_iff (p := HeadingText) Plain.headingText]

theorem isRow_iff {kind : Kind} {key : Key} {cells : List String}
    (hlength : key.length = kind.keyHeadings.length) (h : kind.IsRow rows backends key cells) :
    (∀ cell ∈ cells, CellText cell) ↔ ∀ label ∈ key, CellText label.text := by
  have hcells : cells = (kind.columns rows backends key).map Prod.snd := by
    rw [← h.zip_eq, List.map_snd_zip h.length_eq.le]
  have hrates : ∀ backend ∈ backends, CellText (rateCell (kind.samples rows key backend)) :=
    fun backend _ => (plain_rateCell _).cellText
  have hquotients : ∀ digits samples baseline, CellText (quotientCell digits samples baseline) :=
    fun digits samples baseline => (plain_quotientCell digits samples baseline).cellText
  rw [hcells]
  unfold Kind.columns
  rw [List.map_append, List.map_append, List.map_snd_zip (by simp [hlength]), List.map_map,
    List.forall_mem_append, List.forall_mem_append, List.forall_mem_map, List.forall_mem_map,
    and_assoc, and_iff_left]
  refine ⟨hrates, ?_⟩
  split_ifs
  all_goals simp [hquotients]

theorem forall_mem_iff {α β : Type} {r : α → β → Prop} {p : α → Prop} {q : β → Prop} {xs : List α}
    {ys : List β} (h : List.Forall₂ r xs ys) (hiff : ∀ x ∈ xs, ∀ y, r x y → (q y ↔ p x)) :
    (∀ y ∈ ys, q y) ↔ ∀ x ∈ xs, p x := by
  induction h with
  | nil => simp
  | @cons x y xs ys hxy _ ih =>
    rw [List.forall_mem_cons, List.forall_mem_cons, hiff x List.mem_cons_self y hxy,
      ih fun x hx => hiff x (List.mem_cons_of_mem _ hx)]

theorem tabulates_iff {kind : Kind} {keys : List Key} {table : Table} (hkind : kind.IsPlain)
    (h : kind.Tabulates rows backends keys table) :
    table.Decodes ↔ (∀ backend ∈ backends, HeadingText backend.text) ∧ kind.KeyTexts rows := by
  have hne : table.headings ≠ [] := by
    rw [h.headings_eq]
    simp [Kind.columnHeadings, hkind.ne_nil]
  have hlength : ∀ key ∈ keys, key.length = kind.keyHeadings.length := by
    intro key hkey
    obtain ⟨row, -, -, -, hrow⟩ := (h.mem_iff key).1 hkey
    rw [length_of_keyOf hrow, hkind.length_eq]
  have hwidth : ∀ row ∈ table.rows, row.length = table.headings.length := by
    rw [forall_mem_iff (p := fun _ => True) h.rows fun key _ cells hisRow => ?_]
    · simp
    · rw [hisRow.length_eq, h.headings_eq]
      simp
  have hkeys : (∀ row ∈ table.rows, ∀ cell ∈ row, CellText cell) ↔ kind.KeyTexts rows := by
    rw [forall_mem_iff h.rows fun key hkey cells => isRow_iff (hlength key hkey)]
    unfold Kind.KeyTexts
    simp only [h.mem_iff]
    constructor
    · intro hall row hrow hselects hmetric key hkey
      exact hall key ⟨row, hrow, hselects, hmetric, hkey⟩
    · rintro hall key ⟨row, hrow, hselects, hmetric, hkey⟩
      exact hall row hrow hselects hmetric key hkey
  rw [decodes_iff hne hwidth, h.headings_eq, headings_iff hkind, hkeys]

/-- Every table among the pieces is read back. -/
def AllDecode (parts : List Piece) : Prop := ∀ table, .table table ∈ parts → table.Decodes

theorem allDecode_append {parts parts' : List Piece} :
    AllDecode (parts ++ parts') ↔ AllDecode parts ∧ AllDecode parts' := by
  unfold AllDecode
  simp only [List.mem_append, or_imp, forall_and]

theorem allDecode_flatten {sections : List (List Piece)} :
    AllDecode sections.flatten ↔ ∀ parts ∈ sections, AllDecode parts := by
  unfold AllDecode
  simp only [List.mem_flatten, forall_exists_index, and_imp]
  exact ⟨fun h parts hparts table => h table parts hparts,
    fun h table parts hparts => h parts hparts table⟩

theorem kindPieces_iff {kind : Kind} {parts : List Piece} (hkind : kind.IsPlain)
    (h : kind.pieces backends rows = .ok parts) : AllDecode parts ↔
      ((∃ row ∈ rows, kind.selects row = true) → ∀ backend ∈ backends, HeadingText backend.text) ∧
      kind.KeyTexts rows := by
  unfold Kind.pieces at h
  by_cases hrows : rows.filter kind.selects = []
  · rw [if_pos hrows] at h
    obtain rfl := Except.ok.inj h
    rw [List.filter_eq_nil_iff] at hrows
    refine iff_of_true (by simp [AllDecode]) ⟨?_, ?_⟩
    · rintro ⟨row, hrow, hselects⟩
      exact absurd hselects (hrows row hrow)
    · intro row hrow hselects
      exact absurd hselects (hrows row hrow)
  · rw [if_neg hrows] at h
    obtain ⟨table, htable, h⟩ := bind_eq_ok.1 h
    obtain rfl := Except.ok.inj h
    obtain ⟨keys, hkeys⟩ := table_tabulates hkind.length_eq htable
    have hsome : ∃ row ∈ rows, kind.selects row = true := by
      simpa [List.filter_eq_nil_iff] using hrows
    have htables : AllDecode [.line ("### " ++ kind.title), .line "", .table table] ↔
        table.Decodes := by
      simp [AllDecode]
    rw [htables, tabulates_iff hkind hkeys, forall_prop_of_true hsome]

/-- The texts of rows of one architecture from which every table is read back: the names of its
backends and their last versions, the key fields of the measured rows, and, if there is a
measurement table, the headings with the names of the backends. -/
structure Tabular (rows : List Row) : Prop where
  backends : ∀ row ∈ rows, ∀ backend, row.backend = some backend → CellText backend.text
  versions : ∀ backend row, (rows.filter (·.backend = some backend)).getLast? = some row →
    CellText row.versionName.text
  keys : ∀ kind ∈ kinds, kind.KeyTexts rows
  headings : ∀ kind ∈ kinds, (∃ row ∈ rows, kind.selects row = true) →
    ∀ row ∈ rows, ∀ backend, row.backend = some backend → HeadingText backend.text

/-- The version table is read back if and only if the names of the backends and their last versions
are. -/
theorem versionTable_iff
    (hmem : ∀ backend, backend ∈ backends ↔ ∃ row ∈ rows, row.backend = some backend) :
    (versionTable backends rows).Decodes ↔
      (∀ row ∈ rows, ∀ backend, row.backend = some backend → CellText backend.text) ∧
      ∀ backend row, (rows.filter (·.backend = some backend)).getLast? = some row →
        CellText row.versionName.text := by
  have hversion : ∀ backend row, (rows.filter (·.backend = some backend)).getLast? = some row →
      ((versions rows).get? (some backend)).getD (.str "") = row.versionName := by
    intro backend row hrow
    unfold versions
    rw [Dict.get?_lasts, hrow]
    rfl
  rw [versionTable_decodes_iff]
  constructor
  · intro h
    refine ⟨fun row hrow backend hbackend => (h backend ((hmem backend).2 ⟨row, hrow, hbackend⟩)).1,
      fun backend row hrow => ?_⟩
    have hfilter := List.mem_filter.1 (List.mem_of_getLast? hrow)
    rw [← hversion backend row hrow]
    exact (h backend ((hmem backend).2 ⟨row, hfilter.1, by simpa using hfilter.2⟩)).2
  · rintro ⟨hnames, hversions⟩ backend hbackend
    obtain ⟨row, hrow, hrowBackend⟩ := (hmem backend).1 hbackend
    have hfilter : rows.filter (·.backend = some backend) ≠ [] :=
      List.ne_nil_of_mem (List.mem_filter.2 ⟨hrow, by simpa using hrowBackend⟩)
    have hlast := List.getLast?_eq_some_getLast hfilter
    rw [hversion backend _ hlast]
    exact ⟨hnames row hrow backend hrowBackend, hversions backend _ hlast⟩

theorem architecturePieces_iff {architecture : Label} {parts : List Piece}
    (h : architecturePieces rows architecture = .ok parts) : AllDecode parts ↔ Tabular rows := by
  unfold architecturePieces at h
  obtain ⟨names, hnames, h⟩ := bind_eq_ok.1 h
  obtain ⟨backends, hback, h⟩ := bind_eq_ok.1 h
  obtain ⟨primitivePieces, hprim, h⟩ := bind_eq_ok.1 h
  obtain ⟨handshakePieces, hhand, h⟩ := bind_eq_ok.1 h
  obtain ⟨transferPieces, htrans, h⟩ := bind_eq_ok.1 h
  obtain rfl := Except.ok.inj h
  have hmem : ∀ backend, backend ∈ backends ↔ ∃ row ∈ rows, row.backend = some backend := by
    intro backend
    rw [(sortByRank_inOrder (List.nodup_dedup names) hback).mem_iff, List.mem_dedup,
      mem_of_mapM hnames]
    simp only [require_eq_ok]
  have hheadings : (∀ backend ∈ backends, HeadingText backend.text) ↔
      ∀ row ∈ rows, ∀ backend, row.backend = some backend → HeadingText backend.text := by
    simp only [hmem]
    exact ⟨fun h row hrow backend hrowBackend => h backend ⟨row, hrow, hrowBackend⟩,
      fun h backend ⟨row, hrow, hrowBackend⟩ => h row hrow backend hrowBackend⟩
  have hfirst : AllDecode [.line ("## Architecture: `" ++ architecture.text ++ "`"), .line "",
      .table (versionTable backends rows)] ↔ (versionTable backends rows).Decodes := by
    simp [AllDecode]
  obtain ⟨hplain, hplain', hplain''⟩ := forall_mem_kinds.1 kinds_isPlain
  rw [allDecode_append, allDecode_append, allDecode_append, hfirst, versionTable_iff hmem,
    kindPieces_iff hplain hprim, kindPieces_iff hplain' hhand, kindPieces_iff hplain'' htrans,
    hheadings]
  constructor
  · rintro ⟨⟨⟨hversion, hprim⟩, hhand⟩, htrans⟩
    exact ⟨hversion.1, hversion.2, forall_mem_kinds.2 ⟨hprim.2, hhand.2, htrans.2⟩,
      forall_mem_kinds.2 ⟨hprim.1, hhand.1, htrans.1⟩⟩
  · intro h
    obtain ⟨hhead, hhead', hhead''⟩ := forall_mem_kinds.1 h.headings
    obtain ⟨hkeys, hkeys', hkeys''⟩ := forall_mem_kinds.1 h.keys
    exact ⟨⟨⟨⟨h.backends, h.versions⟩, hhead, hkeys⟩, hhead', hkeys'⟩, hhead'', hkeys''⟩

end Sections

/-! ## The document -/

section Document

variable {rows : List Row} {title : String}

theorem pieces_iff {parts : List Piece} (h : pieces rows title = .ok parts) :
    AllDecode parts ↔
      ∀ architecture, Tabular (rows.filter (·.architectureName = architecture)) := by
  unfold pieces at h
  obtain ⟨architectures, harch, h⟩ := bind_eq_ok.1 h
  obtain ⟨sections, hsections, h⟩ := bind_eq_ok.1 h
  obtain rfl := Except.ok.inj h
  simp only [byArchitecture_get?] at hsections
  have hmem : ∀ architecture, architecture ∈ architectures ↔
      ∃ row ∈ rows, row.architectureName = architecture := by
    intro architecture
    rw [(sortByRank_inOrder (Dict.nodup_keys _) harch).mem_iff]
    exact Dict.mem_keys_groups _ _
  have hheader : AllDecode ((header title).map .line) := by simp [AllDecode]
  rw [allDecode_append, and_iff_right hheader, allDecode_flatten,
    forall_mem_iff (mapM_eq_ok.1 hsections) fun _ _ _ => architecturePieces_iff]
  refine forall_congr' fun architecture => ⟨fun h => ?_, fun h _ => h⟩
  by_cases ha : architecture ∈ architectures
  · exact h ha
  · -- an architecture that does not occur has no rows
    have hnil : rows.filter (·.architectureName = architecture) = [] := by
      rw [List.filter_eq_nil_iff]
      exact fun row hrow hname => ha ((hmem architecture).2 ⟨row, hrow, by simpa using hname⟩)
    rw [hnil]
    exact ⟨by simp, by simp, fun _ _ => by simp [Kind.KeyTexts], by simp⟩

/-- Every table of the document is read back if and only if the rows of each architecture are
tabular. -/
theorem render_decodes_iff {text : String} (h : render rows title = .ok text) :
    ∃ parts, pieces rows title = .ok parts ∧ text = document (parts.flatMap Piece.lines) ∧
      (AllDecode parts ↔
        ∀ architecture, Tabular (rows.filter (·.architectureName = architecture))) := by
  rw [render_eq_pieces] at h
  rcases hparts : pieces rows title with e | parts
  · rw [hparts] at h
    cases h
  · rw [hparts] at h
    exact ⟨parts, rfl, (Except.ok.inj h).symm, pieces_iff hparts⟩

/-- From labels that are plain everything is read back. -/
theorem tabular_of_plain
    (hbackend : ∀ row ∈ rows, ∀ backend, row.backend = some backend → Plain backend.text)
    (hversion : ∀ row ∈ rows, Plain row.versionName.text)
    (hkeys : ∀ row ∈ rows, ∀ kind ∈ kinds, ∀ key, keyOf kind.keyFields row = some key →
      ∀ label ∈ key, Plain label.text) : Tabular rows where
  backends row hrow backend h := (hbackend row hrow backend h).cellText
  versions _ row hlast :=
    (hversion row (List.mem_of_mem_filter (List.mem_of_getLast? hlast))).cellText
  keys kind hkind row hrow _ _ key hkey label hlabel :=
    (hkeys row hrow kind hkind key hkey label hlabel).cellText
  headings _ _ _ row hrow backend h := (hbackend row hrow backend h).headingText

theorem tabular_oneBackend (architecture : Label) :
    Tabular ([aeadRow "openssl" "3" 5].filter (·.architectureName = architecture)) := by
  have hmem : ∀ row ∈ [aeadRow "openssl" "3" 5].filter (·.architectureName = architecture),
      row = aeadRow "openssl" "3" 5 :=
    fun row hrow => List.mem_singleton.1 (List.mem_of_mem_filter hrow)
  refine tabular_of_plain ?_ ?_ ?_
  · intro row hrow backend h
    rw [hmem row hrow] at h
    obtain rfl : Label.str "openssl" = backend := Option.some.inj h
    decide +kernel
  · intro row hrow
    rw [hmem row hrow]
    decide +kernel
  · intro row hrow
    rw [hmem row hrow, forall_mem_kinds]
    refine ⟨fun key hkey => ?_, fun key hkey => ?_, fun key hkey => ?_⟩
    · obtain rfl : [Label.str "aes-128-gcm", .str "seal", .int 16] = key := Option.some.inj hkey
      decide +kernel
    · cases hkey
    · cases hkey

theorem render_decodes_iff_oneBackend : ∃ text parts,
    render [aeadRow "openssl" "3" 5] "AEAD" = .ok text ∧
    pieces [aeadRow "openssl" "3" 5] "AEAD" = .ok parts ∧
    text = document (parts.flatMap Piece.lines) ∧ AllDecode parts := by
  obtain ⟨parts, hparts, htext, hiff⟩ :=
    @render_decodes_iff [aeadRow "openssl" "3" 5] "AEAD" _ rfl
  exact ⟨_, parts, rfl, hparts, htext, hiff.2 tabular_oneBackend⟩

/-- A pipe in the name of a backend makes one heading two. -/
theorem render_decodes_pipe : ¬ ∀ (rows : List Row) (title text : String) (parts : List Piece),
    render rows title = .ok text → pieces rows title = .ok parts → AllDecode parts := by
  intro h
  have hall := h [aeadRow "a|b" "1" 5] "AEAD" _ _ rfl rfl
  have htabular := (@pieces_iff [aeadRow "a|b" "1" 5] "AEAD" _ rfl).1 hall
    (.str "arm64")
  have hheading := htabular.headings primitive (by simp [kinds])
    ⟨aeadRow "a|b" "1" 5, by decide, rfl⟩ (aeadRow "a|b" "1" 5) (by decide) (.str "a|b") rfl
  exact hheading.2 (by decide)

end Document

end OfbBench.Summary
