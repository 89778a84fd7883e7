import OfbBench.Proofs.Summary

/-!
# The summary and the order of its rows

Orders, medians and table cells do not depend on the order of the rows (`tablesOf_perm`). The
version table does: it shows the version of the last row of each backend. So two permutations of the
same rows have documents with the same layout, which differ in versions only
(`render_perm`).
-/

namespace OfbBench.Summary

variable {rows rows' : List Row}

theorem eq_nil_iff_of_perm {α : Type} {xs xs' : List α} (h : xs.Perm xs') :
    xs = [] ↔ xs' = [] := by
  rw [← List.length_eq_zero_iff, h.length_eq, List.length_eq_zero_iff]

theorem pySorted_perm {α : Type} {comparable : α → α → Bool} {le : α → α → Prop} [DecidableRel le]
    [Std.Total le] [IsTrans α le] [Std.Antisymm le] {xs xs' : List α}
    (hsymm : ∀ {a b}, comparable a b = true → comparable b a = true) (h : xs.Perm xs') :
    pySorted comparable le xs = pySorted comparable le xs' := by
  unfold pySorted
  rw [sorted_perm hsymm h]

theorem sortByRank_perm {rank : Label → ℕ} {names names' : List Label} (h : names.Perm names') :
    sortByRank rank names = sortByRank rank names' := by
  refine pySorted_perm (fun {a b} hab => ?_) h
  simp only [decide_eq_true_eq] at hab ⊢
  exact hab.imp Ne.symm Label.comparable_symm

/-! ## Tables -/

section Tables

theorem median?_perm {samples samples' : List ℚ} (h : samples.Perm samples') :
    median? samples = median? samples' := by
  unfold median?
  simp only [median_perm h, eq_nil_iff_of_perm h]

theorem tableRow_congr {values values' : Dict Label ℚ}
    (h : ∀ backend, values.get? backend = values'.get? backend) (key : Key)
    (backends : List Label) : tableRow key values backends = tableRow key values' backends := by
  unfold tableRow ratios ratioCell patchedRatioCell ratioCellOf
  simp only [h]

/-- The table of an aggregation. -/
def Kind.tableOf (kind : Kind) (backends : List Label) (data : Dict Key (Dict Label ℚ)) :
    Except PyError Table := do
  let keys ← pySorted Key.comparable (· ≤ ·) data.keys
  pure ⟨kind.headings backends,
    keys.map fun key => tableRow key ((data.get? key).getD .empty) backends⟩

theorem tableOf_congr (kind : Kind) (backends : List Label) {data data' : Dict Key (Dict Label ℚ)}
    (hkeys : data.keys.Perm data'.keys) (hget : ∀ key backend,
      (data.get? key).bind (·.get? backend) = (data'.get? key).bind (·.get? backend)) :
    kind.tableOf backends data = kind.tableOf backends data' := by
  have hrow : ∀ key, tableRow key ((data.get? key).getD .empty) backends
      = tableRow key ((data'.get? key).getD .empty) backends := by
    intro key
    refine tableRow_congr (fun backend => ?_) key backends
    rw [Dict.get?_getD_empty, Dict.get?_getD_empty, hget]
  unfold Kind.tableOf
  rw [pySorted_perm Key.comparable_symm hkeys]
  simp only [hrow]

theorem table_perm (kind : Kind) (backends : List Label) (hperm : rows.Perm rows') :
    kind.table backends rows = kind.table backends rows' := by
  have hbind : ∀ rows : List Row, kind.table backends rows
      = aggregate kind.keyFields kind.metric rows >>= kind.tableOf backends := fun _ => rfl
  rw [hbind, hbind, aggregate_eq, aggregate_eq]
  have hlack : (∃ row ∈ rows, Lacking kind.keyFields kind.metric row) ↔
      ∃ row ∈ rows', Lacking kind.keyFields kind.metric row := by
    simp only [hperm.mem_iff]
  by_cases hl : ∃ row ∈ rows, Lacking kind.keyFields kind.metric row
  · rw [if_pos hl, if_pos (hlack.1 hl)]
  have hl' : ¬ ∃ row ∈ rows', Lacking kind.keyFields kind.metric row := fun h => hl (hlack.2 h)
  rw [if_neg hl, if_neg hl']
  push Not at hl hl'
  refine tableOf_congr kind backends ?_ fun key backend => ?_
  · rw [List.perm_ext_iff_of_nodup (Dict.nodup_keys _) (Dict.nodup_keys _)]
    intro key
    rw [mem_keys_medians hl, mem_keys_medians hl']
    simp only [hperm.mem_iff]
  · rw [get?_medians, get?_medians]
    exact median?_perm (hperm.filterMap _)

theorem lines_perm (kind : Kind) (backends : List Label) (hperm : rows.Perm rows') :
    kind.lines backends rows = kind.lines backends rows' := by
  have hsel := hperm.filter kind.selects
  unfold Kind.lines
  simp only [table_perm kind backends hsel, eq_nil_iff_of_perm hsel]

/-- The backends of a section and the lines of its measurement tables. -/
def tablesOf (rows : List Row) : Except PyError (List Label × List String) := do
  let names ← rows.mapM fun row => require row.backend
  let backends ← backendOrder names.dedup
  let primitiveLines ← primitive.lines backends rows
  let handshakeLines ← handshake.lines backends rows
  let transferLines ← transfer.lines backends rows
  pure (backends, primitiveLines ++ handshakeLines ++ transferLines)

theorem tablesOf_perm (hperm : rows.Perm rows') {part : List Label × List String}
    (h : tablesOf rows = .ok part) : tablesOf rows' = .ok part := by
  unfold tablesOf at h ⊢
  obtain ⟨names, hnames, h⟩ := bind_eq_ok.1 h
  obtain ⟨names', hnames', hn⟩ := mapM_perm hperm hnames
  rw [hnames']
  change (backendOrder names'.dedup >>= _) = _
  have horder : backendOrder names'.dedup = backendOrder names.dedup := sortByRank_perm hn.dedup
  rw [horder]
  simp only [lines_perm _ _ hperm.symm]
  exact h

end Tables

/-! ## The document -/

section Document

/-- A section whose backends and measurement tables are `part`. -/
def sectionOf (architecture : Label) (part : List Label × List String) (rows : List Row) :
    List String :=
  ["## Architecture: `" ++ architecture.text ++ "`", ""] ++ versionLines part.1 rows ++ part.2

/-- A document in which the backends and the measurement tables of each architecture are `part`. -/
def layout (title : String) (architectures : List Label)
    (part : Label → List Label × List String) (rows : List Row) : String :=
  document (header title ++ architectures.flatMap fun architecture =>
    sectionOf architecture (part architecture) (rows.filter (·.architectureName = architecture)))

theorem renderArchitecture_eq_ok {architecture : Label} {lines : List String} :
    renderArchitecture rows architecture = .ok lines ↔
      ∃ part, tablesOf rows = .ok part ∧ lines = sectionOf architecture part rows := by
  unfold renderArchitecture tablesOf
  simp only [bind_eq_ok]
  constructor
  · rintro ⟨names, hnames, backends, hback, p, hp, q, hq, r, hr, h⟩
    refine ⟨_, ⟨names, hnames, backends, hback, p, hp, q, hq, r, hr, rfl⟩, ?_⟩
    rw [← Except.ok.inj h]
    simp only [sectionOf, List.append_assoc]
  · rintro ⟨part, ⟨names, hnames, backends, hback, p, hp, q, hq, r, hr, h⟩, rfl⟩
    obtain rfl := Except.ok.inj h
    refine ⟨names, hnames, backends, hback, p, hp, q, hq, r, hr, ?_⟩
    simp only [sectionOf, List.append_assoc]
    rfl

theorem render_eq_ok {title text : String} : render rows title = .ok text ↔
    ∃ architectures part, architectureOrder (byArchitecture rows).keys = .ok architectures ∧
      (∀ architecture ∈ architectures,
        tablesOf (rows.filter (·.architectureName = architecture)) = .ok (part architecture)) ∧
      text = layout title architectures part rows := by
  unfold render
  simp only [bind_eq_ok, byArchitecture_get?]
  constructor
  · rintro ⟨architectures, harch, parts, hparts, h⟩
    let part (architecture : Label) : List Label × List String :=
      (tablesOf (rows.filter (·.architectureName = architecture))).toOption.getD ([], [])
    have hpart : ∀ architecture lines,
        renderArchitecture (rows.filter (·.architectureName = architecture)) architecture
          = .ok lines →
        tablesOf (rows.filter (·.architectureName = architecture)) = .ok (part architecture) ∧
        sectionOf architecture (part architecture)
          (rows.filter (·.architectureName = architecture)) = lines := by
      intro architecture lines hlines
      obtain ⟨x, hx, rfl⟩ := renderArchitecture_eq_ok.1 hlines
      have hpx : part architecture = x := by
        simp only [part, hx]
        rfl
      rw [hpx]
      exact ⟨hx, rfl⟩
    obtain ⟨rfl, hsec⟩ := eq_map_of_mapM (fun a lines hlines => (hpart a lines hlines).2) hparts
    refine ⟨architectures, part, harch, fun a ha => (hpart a _ (hsec a ha)).1, ?_⟩
    rw [← Except.ok.inj h, layout, List.flatMap_def]
  · rintro ⟨architectures, part, harch, hpart, rfl⟩
    refine ⟨architectures, harch, architectures.map fun architecture =>
      sectionOf architecture (part architecture)
        (rows.filter (·.architectureName = architecture)), ?_, ?_⟩
    · rw [mapM_eq_ok, List.forall₂_map_right_iff, List.forall₂_same]
      exact fun a ha => renderArchitecture_eq_ok.2 ⟨part a, hpart a ha, rfl⟩
    · rw [layout, List.flatMap_def]
      rfl

/-- The version of the last row of a backend in an architecture. -/
def lastVersion (rows : List Row) (architecture backend : Label) : Option Label :=
  ((rows.filter (·.architectureName = architecture)).filter
    (·.backend = some backend)).getLast?.map Row.versionName

theorem versionLines_congr {backends : List Label}
    (h : ∀ backend, (rows.filter (·.backend = some backend)).getLast?.map Row.versionName
      = (rows'.filter (·.backend = some backend)).getLast?.map Row.versionName) :
    versionLines backends rows = versionLines backends rows' := by
  unfold versionLines versions
  simp only [Dict.get?_lasts, h]

theorem layout_congr (title : String) (architectures : List Label)
    (part : Label → List Label × List String)
    (h : ∀ architecture backend,
      lastVersion rows architecture backend = lastVersion rows' architecture backend) :
    layout title architectures part rows = layout title architectures part rows' := by
  unfold layout sectionOf
  have hlines : ∀ architecture,
      versionLines (part architecture).1 (rows.filter (·.architectureName = architecture))
        = versionLines (part architecture).1 (rows'.filter (·.architectureName = architecture)) :=
    fun architecture => versionLines_congr (h architecture)
  simp only [hlines]

/-- The rows of a backend in an architecture carry one version. -/
def OneVersion (rows : List Row) : Prop :=
  ∀ row ∈ rows, ∀ row' ∈ rows, row.architectureName = row'.architectureName →
    row.backend = row'.backend → row.versionName = row'.versionName

theorem lastVersion_perm (hperm : rows.Perm rows') (hone : OneVersion rows)
    (architecture backend : Label) :
    lastVersion rows architecture backend = lastVersion rows' architecture backend := by
  have hsel := (hperm.filter (·.architectureName = architecture)).filter (·.backend = some backend)
  unfold lastVersion
  rcases hlast : (List.filter _ (rows.filter _)).getLast? with _ | row
  · rw [List.getLast?_eq_none_iff] at hlast
    rw [(eq_nil_iff_of_perm hsel).1 hlast]
    rfl
  rcases hlast' : (List.filter _ (rows'.filter _)).getLast? with _ | row'
  · rw [List.getLast?_eq_none_iff] at hlast'
    rw [(eq_nil_iff_of_perm hsel).2 hlast'] at hlast
    exact absurd hlast (by simp)
  have hmem := List.mem_of_getLast? hlast
  have hmem' := hsel.symm.subset (List.mem_of_getLast? hlast')
  simp only [List.mem_filter, decide_eq_true_eq] at hmem hmem'
  obtain ⟨⟨hr, ha⟩, hb⟩ := hmem
  obtain ⟨⟨hr', ha'⟩, hb'⟩ := hmem'
  rw [Option.map_some, Option.map_some,
    hone row hr row' hr' (ha.trans ha'.symm) (hb.trans hb'.symm)]

/-- Permutations of the same rows have documents of the same layout. They are the same document if
the last rows of each backend carry the same version, so in particular if all its rows do. -/
theorem render_perm {title text : String} (hperm : rows.Perm rows')
    (h : render rows title = .ok text) :
    ∃ text', render rows' title = .ok text' ∧
      (∃ architectures part, text = layout title architectures part rows ∧
        text' = layout title architectures part rows') ∧
      ((∀ architecture backend,
        lastVersion rows architecture backend = lastVersion rows' architecture backend) →
        text' = text) ∧
      (OneVersion rows → text' = text) := by
  obtain ⟨architectures, part, harch, hpart, rfl⟩ := render_eq_ok.1 h
  have horder : architectureOrder (byArchitecture rows').keys
      = architectureOrder (byArchitecture rows).keys := by
    refine sortByRank_perm ?_
    rw [List.perm_ext_iff_of_nodup (Dict.nodup_keys _) (Dict.nodup_keys _)]
    intro name
    unfold byArchitecture
    rw [Dict.mem_keys_groups, Dict.mem_keys_groups]
    simp only [hperm.mem_iff]
  have hsame : (∀ architecture backend,
      lastVersion rows architecture backend = lastVersion rows' architecture backend) →
      layout title architectures part rows' = layout title architectures part rows :=
    fun hlast => (layout_congr title architectures part hlast).symm
  refine ⟨layout title architectures part rows', render_eq_ok.2 ⟨architectures, part, ?_, ?_, rfl⟩,
    ⟨architectures, part, rfl, rfl⟩, hsame, fun hone => hsame (lastVersion_perm hperm hone)⟩
  · rw [horder, harch]
  · exact fun a ha => tablesOf_perm (hperm.filter _) (hpart a ha)

theorem render_perm_threeRows : ∃ text,
    render [aeadRow "openssl" "3" 5, aeadRow "libressl" "4" 2, aeadRow "openssl" "3" 7] "AEAD"
      = .ok text ∧
    render [aeadRow "openssl" "3" 7, aeadRow "openssl" "3" 5, aeadRow "libressl" "4" 2] "AEAD"
      = .ok text := by
  have hperm : [aeadRow "openssl" "3" 5, aeadRow "libressl" "4" 2, aeadRow "openssl" "3" 7].Perm
      [aeadRow "openssl" "3" 7, aeadRow "openssl" "3" 5, aeadRow "libressl" "4" 2] := by
    decide
  obtain ⟨text, h⟩ : ∃ text, render [aeadRow "openssl" "3" 5, aeadRow "libressl" "4" 2,
      aeadRow "openssl" "3" 7] "AEAD" = .ok text := ⟨_, rfl⟩
  obtain ⟨text', h', -, -, hone⟩ := render_perm hperm h
  refine ⟨text, h, ?_⟩
  rw [h', hone]
  unfold OneVersion
  decide

theorem tableLine_eq_bar (cells : List String) :
    tableLine cells = "| " ++ " | ".intercalate cells ++ " " ++ "|" :=
  String.toList_injective (by simp [tableLine])

/-- A table line is the last line of a document that ends in a table. -/
theorem document_tableLine (lines : List String) (cells : List String) :
    document (lines ++ [tableLine cells, ""])
      = "\n".intercalate (lines ++ [tableLine cells]) ++ "\n" := by
  rw [tableLine_eq_bar, (EndsInText.bar lines _).document, intercalate_emptyLine]

/-- What is joined can be told from the result if the rest is known. -/
theorem intercalate_injective {sep x y : String} {before after : List String}
    (h : sep.intercalate (before ++ x :: after) = sep.intercalate (before ++ y :: after)) :
    x = y := by
  induction before with
  | nil =>
    rcases eq_or_ne after [] with rfl | hne
    · simpa using h
    · rw [List.nil_append, List.nil_append, String.intercalate_cons_of_ne_nil hne,
        String.intercalate_cons_of_ne_nil hne] at h
      simpa using h
  | cons line before ih =>
    rw [List.cons_append, List.cons_append, String.intercalate_cons_of_ne_nil (by simp),
      String.intercalate_cons_of_ne_nil (by simp)] at h
    exact ih (by simpa using h)

/-- So can a line of a document that ends in a table. -/
theorem document_injective {before after cells : List String} {x y : String}
    (h : document (before ++ x :: (after ++ [tableLine cells, ""]))
      = document (before ++ y :: (after ++ [tableLine cells, ""]))) : x = y := by
  have hassoc : ∀ line, before ++ line :: (after ++ [tableLine cells, ""])
      = before ++ line :: after ++ [tableLine cells, ""] := by simp
  have hassoc' : ∀ line, before ++ line :: after ++ [tableLine cells]
      = before ++ line :: (after ++ [tableLine cells]) := by simp
  rw [hassoc, hassoc, document_tableLine, document_tableLine, String.append_left_inj, hassoc',
    hassoc'] at h
  exact intercalate_injective h

/-- The document of two rows of one cell, where the version table shows `version`. -/
def versionDocument (version : String) : String :=
  document ((header "AEAD" ++ ["## Architecture: `arm64`", "", tableLine ["Backend", "Version"],
      tableLine ["---", "---"]])
    ++ tableLine (["LibreSSL baseline", version].map escape) ::
      (["", "### AEAD primitive throughput", "",
        tableLine ["Algorithm", "Operation", "Bytes", "LibreSSL baseline MiB/s"],
        tableLine ["---", "---", "---", "---"]]
    ++ [tableLine (["aes-128-gcm", "seal", "16", formatRate (median [5, 5])].map escape), ""]))

theorem versionDocument_injective {version version' : String}
    (h : versionDocument version = versionDocument version') :
    escape version = escape version' := by
  have hline := document_injective h
  simpa [tableLine, String.append_assoc] using hline

theorem render_perm_versions : ¬ ∀ (rows rows' : List Row) (title text : String),
    rows.Perm rows' → render rows title = .ok text → render rows' title = .ok text := by
  intro h
  have hswap := h [aeadRow "libressl" "1" 5, aeadRow "libressl" "2" 5]
    [aeadRow "libressl" "2" 5, aeadRow "libressl" "1" 5] "AEAD" (versionDocument "2")
    (List.Perm.swap ..) rfl
  have hone : render [aeadRow "libressl" "2" 5, aeadRow "libressl" "1" 5] "AEAD"
    = .ok (versionDocument "1") := rfl
  have heq : versionDocument "1" = versionDocument "2" := Except.ok.inj (hone.symm.trans hswap)
  have hescape := congrArg String.toList (versionDocument_injective heq)
  simp [escape] at hescape

end Document

end OfbBench.Summary
