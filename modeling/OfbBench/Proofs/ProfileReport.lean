import OfbBench.Lib.Outline
import OfbBench.Proofs.ProfileOrder

/-!
# What the profile report shows

The report is an outline of the stat files: architectures, their backends and the files of each of
these, in order (`reportOutline`). Its text is the lines of the outline, none of which `rstrip`
takes away, since a block ends in a table (`renderCase_ends`). So every listed file has its block,
once for each time it is listed (`render_complete`); without any file there is no report.
-/

namespace OfbBench.Profiles

open Summary (EndsInText)

/-- `x86_64` first, `arm64` second, the other architectures by name. -/
def ArchitectureBefore (a b : String) : Prop :=
  a ≠ b ∧ (a = "x86_64" ∨ (b ≠ "x86_64" ∧ (a = "arm64" ∨ (b ≠ "arm64" ∧ a < b))))

instance : Std.Irrefl ArchitectureBefore := ⟨fun _ h => h.1 rfl⟩

/-- Operations and then sizes do not decrease. -/
def InOrder (case : Path → Case) (p q : Path) : Prop :=
  (case p).operation < (case q).operation
    ∨ ((case p).operation = (case q).operation ∧ (case p).size ≤ (case q).size)

/-- Stat files under their architectures and backends. -/
abbrev ReportOutline (case : Path → Case) (paths : List Path) : Type :=
  Outline (fun path => (case path).architecture) (fun path => (case path).backend)
    ArchitectureBefore (· < ·) (InOrder case) paths

/-- The lines under the title. -/
def outlineLines (block : Path → List String)
    (parts : List (String × List (String × List Path))) : List String :=
  parts.flatMap fun part => ["## Architecture: `" ++ part.1 ++ "`", ""]
    ++ part.2.flatMap fun group => ["### Backend: `" ++ group.1 ++ "`", ""]
      ++ group.2.flatMap block

/-! ## The outline -/

section Orders

variable {cases : List (Case × Path)} {architecture backend : String}

theorem architectureBefore_of_le {a b : String} (hne : a ≠ b)
    (h : toLex (architectureRank a, a) ≤ toLex (architectureRank b, b)) :
    ArchitectureBefore a b := by
  refine ⟨hne, ?_⟩
  rw [Prod.Lex.toLex_le_toLex] at h
  unfold architectureRank at h
  by_cases hx : a = "x86_64"
  · exact .inl hx
  by_cases hx' : b = "x86_64"
  · simp only [if_neg hx, if_pos hx'] at h
    split_ifs at h
    · simp at h
    · simp at h
  refine .inr ⟨hx', ?_⟩
  by_cases ha : a = "arm64"
  · exact .inl ha
  by_cases ha' : b = "arm64"
  · simp [if_neg hx, if_neg ha, if_neg hx', if_pos ha'] at h
  refine .inr ⟨ha', ?_⟩
  simp only [if_neg hx, if_neg ha, if_neg hx', if_neg ha', lt_irrefl, false_or, true_and] at h
  exact lt_of_le_of_ne h hne

theorem architectureOrder_before (names : List String) :
    (architectureOrder names).Pairwise ArchitectureBefore := by
  have hsorted : (architectureOrder names).Pairwise fun a b =>
      toLex (architectureRank a, a) ≤ toLex (architectureRank b, b) :=
    List.pairwise_insertionSort _ _
  exact (hsorted.and (nodup_architectureOrder names)).imp fun h =>
    architectureBefore_of_le h.2 h.1

theorem backendsOf_lt : (backendsOf cases architecture).Pairwise (· < ·) := by
  have hsorted : (backendsOf cases architecture).Pairwise (· ≤ ·) :=
    List.pairwise_insertionSort _ _
  exact (hsorted.and (nodup_backendsOf cases architecture)).imp fun h => lt_of_le_of_ne h.1 h.2

theorem sortCases_inOrder (items : List (Case × Path)) :
    (sortCases items).Pairwise fun x y => x.1.operation < y.1.operation
      ∨ (x.1.operation = y.1.operation ∧ x.1.size ≤ y.1.size) := by
  have hsorted : (sortCases items).Pairwise fun x y => x.1.sortKey ≤ y.1.sortKey :=
    List.pairwise_insertionSort _ _
  exact hsorted.imp fun h => Prod.Lex.toLex_le_toLex.1 h

end Orders

section Outline

variable (case : Path → Case) (paths : List Path)

/-- The stat files with their cases. -/
def casesOf : List (Case × Path) := paths.map fun path => (case path, path)

/-- The files of a backend, in order. -/
def filesOf (architecture backend : String) : List Path :=
  (sortCases (selected (casesOf case paths) architecture backend)).map Prod.snd

def reportParts : List (String × List (String × List Path)) :=
  (architectureOrder (paths.map fun path => (case path).architecture)).map fun architecture =>
    (architecture, (backendsOf (casesOf case paths) architecture).map fun backend =>
      (backend, filesOf case paths architecture backend))

theorem filesOf_perm (architecture backend : String) :
    (filesOf case paths architecture backend).Perm (paths.filter fun path =>
      (case path).architecture = architecture ∧ (case path).backend = backend) := by
  refine ((List.perm_insertionSort _ _).map Prod.snd).trans (List.Perm.of_eq ?_)
  unfold selected casesOf
  rw [List.filter_map, List.map_map]
  exact List.map_id _

theorem filesOf_inOrder (architecture backend : String) :
    (filesOf case paths architecture backend).Pairwise (InOrder case) := by
  have hcase : ∀ item ∈ sortCases (selected (casesOf case paths) architecture backend),
      item.1 = case item.2 := by
    intro item hitem
    unfold sortCases selected casesOf at hitem
    rw [List.mem_insertionSort, List.mem_filter] at hitem
    obtain ⟨path, -, rfl⟩ := List.mem_map.1 hitem.1
    rfl
  unfold filesOf
  rw [List.pairwise_map]
  refine (sortCases_inOrder _).imp_of_mem fun {x y} hx hy h => ?_
  rwa [hcase x hx, hcase y hy] at h

/-- The outline of the report of some stat files. -/
def reportOutline : ReportOutline case paths where
  parts := reportParts case paths
  headings := by
    unfold reportParts
    rw [List.map_map, show Prod.fst ∘ _ = id from rfl, List.map_id]
    exact architectureOrder_before _
  mem_headings name := by
    unfold reportParts
    rw [List.map_map, show Prod.fst ∘ _ = id from rfl, List.map_id, mem_architectureOrder,
      List.mem_map]
  subheadings part hpart := by
    obtain ⟨architecture, -, rfl⟩ := List.mem_map.1 hpart
    rw [List.map_map, show Prod.fst ∘ _ = id from rfl, List.map_id]
    exact backendsOf_lt
  mem_subheadings part hpart name := by
    obtain ⟨architecture, -, rfl⟩ := List.mem_map.1 hpart
    rw [List.map_map, show Prod.fst ∘ _ = id from rfl, List.map_id, mem_backendsOf]
    simp [casesOf]
  items part hpart group hgroup := by
    obtain ⟨architecture, -, rfl⟩ := List.mem_map.1 hpart
    obtain ⟨backend, -, rfl⟩ := List.mem_map.1 hgroup
    exact filesOf_perm case paths architecture backend
  sorted part hpart group hgroup := by
    obtain ⟨architecture, -, rfl⟩ := List.mem_map.1 hpart
    obtain ⟨backend, -, rfl⟩ := List.mem_map.1 hgroup
    exact filesOf_inOrder case paths architecture backend

theorem reportLines_eq (block : Path → List String) (title : String) :
    reportLines (fun item => block item.2) (casesOf case paths) title
      = header title ++ outlineLines block (reportOutline case paths).parts := by
  have harchitectures : (casesOf case paths).map (·.1.architecture)
      = paths.map fun path => (case path).architecture := by
    simp [casesOf]
  unfold reportLines outlineLines reportOutline reportParts
  rw [harchitectures, List.flatMap_map]
  refine congrArg _ (List.flatMap_congr fun architecture _ => ?_)
  unfold architectureLines
  rw [List.flatMap_map]
  refine congrArg _ (List.flatMap_congr fun backend _ => ?_)
  unfold backendLines filesOf
  rw [List.flatMap_map]

end Outline

/-! ## The end of the text -/

section Ends

variable {lines : List String}

theorem hotspotLine_bar {hotspot : PyFloat × String} {line : String}
    (h : hotspotLine hotspot = .ok line) : ∃ text, line = text ++ "|" := by
  obtain ⟨_, -, h⟩ := bind_eq_ok.1 h
  obtain ⟨_, -, h⟩ := bind_eq_ok.1 h
  obtain rfl := Except.ok.inj h
  rw [show ("` |" : String) = "` " ++ "|" from rfl, ← String.append_assoc]
  exact ⟨_, rfl⟩

theorem hotspotLines_ends {hotspots : List (PyFloat × String)}
    (h : hotspotLines hotspots = .ok lines) : EndsInText lines := by
  unfold hotspotLines at h
  split_ifs at h with hnil
  · obtain rfl := Except.ok.inj h
    exact .bar ["| Hotspot share | Symbol / object |", "| --- | --- |"]
      "| — | No samples reported "
  · obtain ⟨rows, hrows, h⟩ := bind_eq_ok.1 h
    obtain rfl := Except.ok.inj h
    have hne : rows ≠ [] := by
      rintro rfl
      exact hnil (List.forall₂_nil_right_iff.1 (mapM_eq_ok.1 hrows))
    obtain ⟨rows', row, rfl⟩ := (List.eq_nil_or_concat' rows).resolve_left hne
    obtain ⟨hotspot, -, hrow⟩ := (mem_of_mapM hrows row).1 (by simp)
    obtain ⟨text, rfl⟩ := hotspotLine_bar hrow
    rw [List.append_assoc, List.append_assoc]
    exact ((EndsInText.bar rows' text).append _)

/-- The block of a case ends in the table of its hotspots. -/
theorem renderCase_ends {upper : String → String} {files : Files} {path : Path}
    (h : renderCase upper files path = .ok lines) : EndsInText lines := by
  obtain ⟨_, -, h⟩ := bind_eq_ok.1 h
  obtain ⟨_, -, h⟩ := bind_eq_ok.1 h
  obtain ⟨_, -, h⟩ := bind_eq_ok.1 h
  obtain ⟨_, -, h⟩ := bind_eq_ok.1 h
  obtain ⟨_, -, h⟩ := bind_eq_ok.1 h
  obtain ⟨_, -, h⟩ := bind_eq_ok.1 h
  obtain ⟨hotspotRows, hhotspots, h⟩ := bind_eq_ok.1 h
  obtain rfl := Except.ok.inj h
  exact (hotspotLines_ends hhotspots).append _

theorem outlineLines_ends {case : Path → Case} {paths : List Path} {block : Path → List String}
    (outline : ReportOutline case paths) (hne : paths ≠ [])
    (hblock : ∀ path ∈ paths, EndsInText (block path)) :
    EndsInText (outlineLines block outline.parts) := by
  refine EndsInText.flatMap (outline.parts_ne_nil hne) fun part hpart => ?_
  refine (EndsInText.flatMap (outline.groups_ne_nil hpart) fun group hgroup => ?_).append _
  refine (EndsInText.flatMap (outline.items_ne_nil hpart hgroup) fun path hpath => ?_).append _
  have hmem := (outline.items part hpart group hgroup).subset hpath
  exact hblock path (List.mem_filter.1 hmem).1

end Ends

/-! ## The report -/

/-- The report shows every listed file, once for each time it is listed, under its architecture and
its backend, all of these once and in order; without a file there is none. -/
theorem render_complete (upper : String → String) (files : Files) (args : List Path)
    (title : String) (case : Path → Case) (block : Path → List String)
    (hcase : ∀ path ∈ statPaths files args, parseCase path = .ok (case path))
    (hblock : ∀ path ∈ statPaths files args, renderCase upper files path = .ok (block path)) :
    (statPaths files args = [] →
      render upper files args title = .error (.valueError "no perf stat files found"))
    ∧ (statPaths files args ≠ [] → ∃ outline : ReportOutline case (statPaths files args),
      render upper files args title
        = .ok ("\n".intercalate (header title ++ outlineLines block outline.parts))
      ∧ outline.all.Perm (statPaths files args)) := by
  unfold render
  constructor
  · intro hnil
    rw [hnil, renderFiles, if_pos rfl]
  · intro hne
    refine ⟨reportOutline case (statPaths files args), ?_, Outline.perm _⟩
    have hcases : (statPaths files args).mapM caseOf = .ok (casesOf case (statPaths files args)) :=
      mapM_of_forall fun path hpath => caseOf_eq_ok.2 ⟨hcase path hpath, rfl⟩
    have hitems : ∀ item ∈ casesOf case (statPaths files args),
        renderCase upper files item.2 = .ok (block item.2) := by
      intro item hitem
      obtain ⟨path, hpath, rfl⟩ := List.mem_map.1 hitem
      exact hblock path hpath
    have hends := outlineLines_ends (reportOutline case (statPaths files args)) hne
      fun path hpath => renderCase_ends (hblock path hpath)
    rw [renderFiles_eq hne hcases, report_eq hitems, reportLines_eq,
      (hends.append (header title)).document]

/-- The cases of the two files of `openssl` with an algorithm `aes`. -/
def opensslCase (path : Path) : Case :=
  ⟨"openssl", "arm64", "aes", if path = opensslPath "aes" "open" then "open" else "seal", 64⟩

theorem render_complete_twoFiles :
    ∃ outline : ReportOutline opensslCase
        [opensslPath "aes" "open", opensslPath "aes" "seal", opensslPath "aes" "open"],
      render id (branchesOf (opensslPath "aes" "seal"))
          [opensslPath "aes" "open", opensslPath "aes" "seal", opensslPath "aes" "open"]
          "AEAD perf profiles"
        = .ok ("\n".intercalate (header "AEAD perf profiles" ++ outlineLines (fun path =>
          branchesBlock id (opensslPath "aes" "seal") (opensslCase path, path)) outline.parts))
      ∧ outline.all.Perm
        [opensslPath "aes" "open", opensslPath "aes" "seal", opensslPath "aes" "open"] := by
  have hcase : ∀ path ∈ [opensslPath "aes" "open", opensslPath "aes" "seal",
      opensslPath "aes" "open"], parseCase path = .ok (opensslCase path) := by
    have hopen := parseCase_opensslPath "aes" "open" (.inl rfl) (.inr rfl)
    have hseal := parseCase_opensslPath "aes" "seal" (.inl rfl) (.inl rfl)
    intro path hpath
    simp only [List.mem_cons, List.not_mem_nil, or_false] at hpath
    rcases hpath with rfl | rfl | rfl
    · exact hopen
    · exact hseal
    · exact hopen
  exact (render_complete id (branchesOf (opensslPath "aes" "seal"))
    [opensslPath "aes" "open", opensslPath "aes" "seal", opensslPath "aes" "open"]
    "AEAD perf profiles" opensslCase _ hcase fun path hpath =>
      @renderCase_branchesOf id _ (opensslCase path, path) (hcase path hpath)).2 (by decide)

/-- A directory without stat files. -/
def noFiles : Files where
  listing _ := some []
  rows _ := .error .fileError
  mode _ := .error .fileError
  report _ := .error .fileError

theorem render_noFiles : ¬ ∀ (upper : String → String) (files : Files) (args : List Path)
    (title : String),
    (∀ path ∈ statPaths files args, ∃ case, parseCase path = .ok case) →
    (∀ path ∈ statPaths files args, ∃ lines, renderCase upper files path = .ok lines) →
    ∃ text, render upper files args title = .ok text := by
  intro h
  obtain ⟨text, htext⟩ := h id noFiles [⟨"", "profiles"⟩] "AEAD perf profiles"
    (fun path hpath => absurd hpath List.not_mem_nil)
    (fun path hpath => absurd hpath List.not_mem_nil)
  have herror : render id noFiles [⟨"", "profiles"⟩] "AEAD perf profiles"
    = .error (.valueError "no perf stat files found") := rfl
  rw [herror] at htext
  simp at htext

end OfbBench.Profiles
