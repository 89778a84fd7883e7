import OfbBench.Proofs.Permutation
import OfbBench.Profiles

/-!
# The profile report and the order of its files

The sets of architectures and backends do not depend on the order in which the files are listed, and
neither does a group once it is sorted, unless two of its files agree in operation and size: these
stay in the order they were in (`insertionSort_tie`), so that their blocks can change places. The
report is independent of the order of the files if and only if no two of them tie
(`render_order_iff`).
-/

namespace OfbBench.Profiles

open Summary (document tableLine)

/-- What the report groups and sorts by. -/
def Case.place (case : Case) : String × String × (String ×ₗ ℕ) :=
  (case.architecture, case.backend, case.sortKey)

/-- The cases of two files differ in architecture, backend, operation or size. -/
def Apart (p q : Path) : Prop :=
  ∀ c d, parseCase p = .ok c → parseCase q = .ok d → c.place ≠ d.place

instance : Std.Symm Apart := ⟨fun _ _ h c d hc hd heq => h d c hd hc heq.symm⟩

/-- No two of the files agree in architecture, backend, operation and size. -/
def Distinguished (paths : List Path) : Prop := paths.Pairwise Apart

/-! ## The cases of the files -/

section Cases

variable {paths listed : List Path} {cases cases' : List (Case × Path)}

theorem caseOf_eq_ok {path : Path} {item : Case × Path} :
    caseOf path = .ok item ↔ parseCase path = .ok item.1 ∧ item.2 = path := by
  unfold caseOf
  rw [bind_eq_ok]
  constructor
  · rintro ⟨case, hcase, h⟩
    obtain rfl := Except.ok.inj h
    exact ⟨hcase, rfl⟩
  · rintro ⟨hcase, rfl⟩
    exact ⟨item.1, hcase, rfl⟩

theorem exists_cases (h : ∀ path ∈ paths, ∃ case, parseCase path = .ok case) :
    ∃ cases, paths.mapM caseOf = .ok cases := by
  refine exists_mapM_iff.2 fun path hpath => ?_
  obtain ⟨case, hcase⟩ := h path hpath
  exact ⟨(case, path), caseOf_eq_ok.2 ⟨hcase, rfl⟩⟩

theorem eq_of_place (hdist : Distinguished paths) (h : paths.mapM caseOf = .ok cases) :
    ∀ x ∈ cases, ∀ y ∈ cases, x.1.place = y.1.place → x = y := by
  intro x hx y hy hplace
  obtain ⟨p, hp, hxp⟩ := (mem_of_mapM h x).1 hx
  obtain ⟨q, hq, hyq⟩ := (mem_of_mapM h y).1 hy
  obtain ⟨hcase, rfl⟩ := caseOf_eq_ok.1 hxp
  obtain ⟨hcase', rfl⟩ := caseOf_eq_ok.1 hyq
  by_cases hpq : x.2 = y.2
  · rw [hpq, hcase', Except.ok.injEq] at hcase
    exact Prod.ext hcase.symm hpq
  · exact absurd hplace (hdist.forall hp hq hpq _ _ hcase hcase')

end Cases

/-! ## Without ties -/

section Render

variable (upper : String → String) (files : Files) {paths listed : List Path}
  {cases cases' : List (Case × Path)}

/-- What `render` does once it has the cases. -/
def report (cases : List (Case × Path)) (title : String) : Except Raised String := do
  let sections ← (architectureOrder (cases.map (·.1.architecture))).mapM
    (renderArchitecture upper files cases)
  pure (document (header title ++ sections.flatten))

variable {upper files}

theorem renderFiles_eq (hne : paths ≠ []) (h : paths.mapM caseOf = .ok cases) (title : String) :
    renderFiles upper files paths title = report upper files cases title := by
  unfold renderFiles
  rw [if_neg hne, h]
  rfl

theorem architectureOrder_perm {names names' : List String} (h : names.Perm names') :
    architectureOrder names = architectureOrder names' := by
  unfold architectureOrder
  refine insertionSort_perm_of ?_ h.dedup
  intro a _ b _ hab hba
  have heq := le_antisymm hab hba
  simpa using congrArg (fun pair => (ofLex pair).2) heq

theorem backendsOf_perm (h : cases.Perm cases') (architecture : String) :
    backendsOf cases architecture = backendsOf cases' architecture :=
  insertionSort_perm (((h.filter _).map _).dedup)

theorem sortCases_perm (h : cases.Perm cases')
    (hplace : ∀ x ∈ cases, ∀ y ∈ cases, x.1.place = y.1.place → x = y)
    (architecture backend : String) :
    sortCases (selected cases architecture backend)
      = sortCases (selected cases' architecture backend) := by
  refine insertionSort_perm_of ?_ (h.filter _)
  intro x hx y hy hxy hyx
  unfold selected at hx hy
  simp only [List.mem_filter, decide_eq_true_eq] at hx hy
  obtain ⟨hx, ha, hb⟩ := hx
  obtain ⟨hy, ha', hb'⟩ := hy
  refine hplace x hx y hy ?_
  unfold Case.place
  rw [ha, hb, ha', hb', le_antisymm hxy hyx]

theorem report_perm (h : cases.Perm cases')
    (hplace : ∀ x ∈ cases, ∀ y ∈ cases, x.1.place = y.1.place → x = y) (title : String) :
    report upper files cases title = report upper files cases' title := by
  have hbackend : ∀ architecture backend, renderBackend upper files cases architecture backend
      = renderBackend upper files cases' architecture backend := by
    intro architecture backend
    unfold renderBackend
    rw [sortCases_perm h hplace]
  have harchitecture : ∀ architecture, renderArchitecture upper files cases architecture
      = renderArchitecture upper files cases' architecture := by
    intro architecture
    unfold renderArchitecture
    rw [backendsOf_perm h, funext (hbackend architecture)]
  unfold report
  rw [architectureOrder_perm (h.map _), funext harchitecture]

/-- Without ties the order of the files does not matter. -/
theorem renderFiles_perm (haccepted : ∀ path ∈ paths, ∃ case, parseCase path = .ok case)
    (hdist : Distinguished paths) (hperm : listed.Perm paths) (title : String) :
    renderFiles upper files listed title = renderFiles upper files paths title := by
  rcases eq_or_ne paths [] with rfl | hne
  · rw [hperm.eq_nil]
  have hne' : listed ≠ [] := fun h => hne (by rw [h] at hperm; exact hperm.nil_eq.symm)
  obtain ⟨cases, hcases⟩ := exists_cases haccepted
  obtain ⟨cases', hcases', hp⟩ := mapM_perm hperm.symm hcases
  rw [renderFiles_eq hne hcases, renderFiles_eq hne' hcases']
  exact (report_perm hp.symm (eq_of_place hdist hcases) title).symm

end Render

/-! ## Lines and their text -/

section Text

/-- The text of some lines, each with its newline. -/
def textOf (lines : List String) : List Char := lines.flatMap fun line => line.toList ++ ['\n']

theorem toList_intercalate {lines : List String} (h : lines ≠ []) :
    ("\n".intercalate lines).toList ++ ['\n'] = textOf lines := by
  induction lines with
  | nil => exact absurd rfl h
  | cons line lines ih =>
    rcases eq_or_ne lines [] with rfl | hne
    · simp [textOf]
    · rw [String.intercalate_cons_of_ne_nil hne]
      simp only [String.toList_append, List.append_assoc, ih hne]
      simp [textOf]

theorem toList_document {lines : List String} (h : lines ≠ []) :
    (document lines).toList = (textOf lines).rdropWhile Summary.isPySpace ++ ['\n'] := by
  unfold document Summary.rstrip
  rw [String.toList_append, String.toList_ofList, ← toList_intercalate h,
    List.rdropWhile_concat_pos _ _ _ (by decide)]
  rfl

theorem rdropWhile_append {p : Char → Bool} (x y : List Char) : (x ++ y).rdropWhile p
    = if y.rdropWhile p = [] then x.rdropWhile p else x ++ y.rdropWhile p := by
  unfold List.rdropWhile
  rw [List.reverse_append, List.dropWhile_append]
  simp only [List.isEmpty_iff, List.reverse_eq_nil_iff]
  split_ifs with h
  · rfl
  · simp

theorem eq_of_rdropWhile_eq {p : Char → Bool} {x a b u v z rest : List Char}
    (hlength : u.length = v.length) (hz : z.rdropWhile p ≠ [])
    (h : (x ++ ((a ++ (u ++ z)) ++ (b ++ (v ++ z))) ++ rest).rdropWhile p
      = (x ++ ((b ++ (v ++ z)) ++ (a ++ (u ++ z))) ++ rest).rdropWhile p) : u = v := by
  have hend : ∀ {l l' t : List Char}, l ++ (v ++ t) = l' ++ (u ++ t) → u = v := by
    intro l l' t heq
    have htail := (List.append_inj' heq (by simp [hlength])).2
    exact (List.append_cancel_right htail).symm
  rw [rdropWhile_append _ rest, rdropWhile_append _ rest] at h
  split_ifs at h with hrest
  · -- the second piece ends the text
    have hpiece : ∀ l m : List Char,
        (x ++ (l ++ (m ++ z))).rdropWhile p = x ++ l ++ (m ++ z.rdropWhile p) := by
      intro l m
      rw [← List.append_assoc, ← List.append_assoc, rdropWhile_append, if_neg hz]
      simp
    rw [← List.append_assoc _ b, ← List.append_assoc _ a, hpiece, hpiece] at h
    exact hend h
  · have hpiece : ∀ l m : List Char, x ++ (l ++ (m ++ z)) ++ rest.rdropWhile p
        = x ++ l ++ (m ++ (z ++ rest.rdropWhile p)) := by simp
    rw [← List.append_assoc _ b, ← List.append_assoc _ a, hpiece, hpiece] at h
    exact hend h

/-- Two pieces that end alike, up to the line before, can be told from the document they are in. -/
theorem eq_of_document_eq {before after front front' closing : List String} {u v : String}
    (hlength : u.length = v.length)
    (hclosing : ('\n' :: textOf closing).rdropWhile Summary.isPySpace ≠ [])
    (h : document (before ++ ((front ++ u :: closing) ++ (front' ++ v :: closing)) ++ after)
      = document (before ++ ((front' ++ v :: closing) ++ (front ++ u :: closing)) ++ after)) :
    u = v := by
  have hpieces : ∀ (front front' : List String) (u v : String),
      textOf (before ++ ((front ++ u :: closing) ++ (front' ++ v :: closing)) ++ after)
        = textOf before ++ ((textOf front ++ (u.toList ++ ('\n' :: textOf closing)))
          ++ (textOf front' ++ (v.toList ++ ('\n' :: textOf closing)))) ++ textOf after := by
    intro front front' u v
    simp [textOf]
  have htext := congrArg String.toList h
  rw [toList_document (by simp), toList_document (by simp), List.append_left_inj, hpieces,
    hpieces] at htext
  have hchars : u.toList.length = v.toList.length := by
    rw [String.length_toList, String.length_toList, hlength]
  exact String.toList_injective (eq_of_rdropWhile_eq hchars hclosing htext)

end Text

/-! ## With a tie -/

section Ties

variable {α β : Type}

/-- Two lists that differ in the order of two neighbouring pieces. -/
def Swapped (piece piece' xs ys : List α) : Prop :=
  ∃ before after, xs = before ++ (piece ++ piece') ++ after
    ∧ ys = before ++ (piece' ++ piece) ++ after

theorem Swapped.append {piece piece' xs ys : List α} (h : Swapped piece piece' xs ys)
    (front : List α) : Swapped piece piece' (front ++ xs) (front ++ ys) := by
  obtain ⟨before, after, rfl, rfl⟩ := h
  exact ⟨front ++ before, after, by simp, by simp⟩

theorem Swapped.flatMap {piece piece' : List β} {f g : α → List β} {xs : List α} {x : α}
    (hx : x ∈ xs) (hnodup : xs.Nodup) (hsame : ∀ y ∈ xs, y ≠ x → f y = g y)
    (h : Swapped piece piece' (f x) (g x)) :
    Swapped piece piece' (xs.flatMap f) (xs.flatMap g) := by
  obtain ⟨left, right, rfl⟩ := List.append_of_mem hx
  obtain ⟨before, after, hf, hg⟩ := h
  have hnot := List.nodup_middle.1 hnodup
  rw [List.nodup_cons, List.mem_append, not_or] at hnot
  have hleft : left.flatMap f = left.flatMap g := List.flatMap_congr fun y hy =>
    hsame y (by simp [hy]) fun heq => hnot.1.1 (heq ▸ hy)
  have hright : right.flatMap f = right.flatMap g := List.flatMap_congr fun y hy =>
    hsame y (by simp [hy]) fun heq => hnot.1.2 (heq ▸ hy)
  refine ⟨left.flatMap g ++ before, after ++ right.flatMap g, ?_, ?_⟩
  · rw [List.flatMap_append, List.flatMap_cons, hf, hleft, hright]
    simp
  · rw [List.flatMap_append, List.flatMap_cons, hg]
    simp

end Ties

section Lines

variable (block : Case × Path → List String) {cases : List (Case × Path)} {x y : Case × Path}

/-- The lines of `renderBackend`, from the lines of each case. -/
def backendLines (cases : List (Case × Path)) (architecture backend : String) : List String :=
  ["### Backend: `" ++ backend ++ "`", ""]
  ++ (sortCases (selected cases architecture backend)).flatMap block

/-- The lines of `renderArchitecture`. -/
def architectureLines (cases : List (Case × Path)) (architecture : String) : List String :=
  ["## Architecture: `" ++ architecture ++ "`", ""]
  ++ (backendsOf cases architecture).flatMap (backendLines block cases architecture)

/-- The lines of the document. -/
def reportLines (cases : List (Case × Path)) (title : String) : List String :=
  header title ++ (architectureOrder (cases.map (·.1.architecture))).flatMap
    (architectureLines block cases)

variable {block}

theorem report_eq {upper : String → String} {files : Files}
    (h : ∀ item ∈ cases, renderCase upper files item.2 = .ok (block item)) (title : String) :
    report upper files cases title = .ok (document (reportLines block cases title)) := by
  have hbackend : ∀ architecture backend, renderBackend upper files cases architecture backend
      = .ok (backendLines block cases architecture backend) := by
    intro architecture backend
    refine bind_eq_ok.2 ⟨_, mapM_of_forall (g := block) fun item hitem => ?_, ?_⟩
    · unfold sortCases selected at hitem
      rw [List.mem_insertionSort, List.mem_filter] at hitem
      exact h item hitem.1
    · rw [backendLines, List.flatMap_def]
      rfl
  have harchitecture : ∀ architecture, renderArchitecture upper files cases architecture
      = .ok (architectureLines block cases architecture) := by
    intro architecture
    refine bind_eq_ok.2 ⟨_, mapM_of_forall fun backend _ => hbackend architecture backend, ?_⟩
    rw [architectureLines, List.flatMap_def]
    rfl
  refine bind_eq_ok.2 ⟨_, mapM_of_forall fun architecture _ => harchitecture architecture, ?_⟩
  rw [reportLines, List.flatMap_def]
  rfl

theorem mem_architectureOrder {names : List String} {name : String} :
    name ∈ architectureOrder names ↔ name ∈ names := by
  unfold architectureOrder
  rw [List.mem_insertionSort, List.mem_dedup]

theorem nodup_architectureOrder (names : List String) : (architectureOrder names).Nodup :=
  (List.perm_insertionSort _ _).nodup_iff.2 (List.nodup_dedup names)

theorem mem_backendsOf {architecture backend : String} : backend ∈ backendsOf cases architecture ↔
    ∃ item ∈ cases, item.1.architecture = architecture ∧ item.1.backend = backend := by
  unfold backendsOf backendOrder
  rw [List.mem_insertionSort, List.mem_dedup]
  simp [and_assoc]

theorem nodup_backendsOf (cases : List (Case × Path)) (architecture : String) :
    (backendsOf cases architecture).Nodup :=
  (List.perm_insertionSort _ _).nodup_iff.2 (List.nodup_dedup _)

/-- A group they do not belong to is the same in either order. -/
theorem selected_swapped {architecture backend : String}
    (harchitecture : x.1.architecture = y.1.architecture) (hbackend : x.1.backend = y.1.backend)
    (hnot : ¬ (x.1.architecture = architecture ∧ x.1.backend = backend)) :
    selected (x :: y :: cases) architecture backend
      = selected (y :: x :: cases) architecture backend := by
  have hnot' : ¬ (y.1.architecture = architecture ∧ y.1.backend = backend) := by
    rwa [← harchitecture, ← hbackend]
  unfold selected
  simp only [List.filter_cons, decide_eq_true_eq, if_neg hnot, if_neg hnot']

theorem selected_cons₂ {architecture backend : String}
    (hx : x.1.architecture = architecture ∧ x.1.backend = backend)
    (hy : y.1.architecture = architecture ∧ y.1.backend = backend) :
    selected (x :: y :: cases) architecture backend
      = x :: y :: selected cases architecture backend := by
  unfold selected
  simp only [List.filter_cons, decide_eq_true_eq, if_pos hx, if_pos hy]

theorem backendLines_swapped (harchitecture : x.1.architecture = y.1.architecture)
    (hbackend : x.1.backend = y.1.backend) (hkey : x.1.sortKey = y.1.sortKey) :
    Swapped (block x) (block y)
      (backendLines block (x :: y :: cases) x.1.architecture x.1.backend)
      (backendLines block (y :: x :: cases) x.1.architecture x.1.backend) := by
  refine Swapped.append ?_ _
  rw [selected_cons₂ ⟨rfl, rfl⟩ ⟨harchitecture.symm, hbackend.symm⟩,
    selected_cons₂ ⟨harchitecture.symm, hbackend.symm⟩ ⟨rfl, rfl⟩]
  obtain ⟨before, after, hxy, hyx⟩ := @insertionSort_tie _
    (fun a b : Case × Path => a.1.sortKey ≤ b.1.sortKey) _
    (selected cases x.1.architecture x.1.backend) _ x y hkey.le hkey.ge
  refine ⟨before.flatMap block, after.flatMap block, ?_, ?_⟩
  · unfold sortCases
    rw [hxy]
    simp
  · unfold sortCases
    rw [hyx]
    simp

/-- Two cases that tie have their blocks next to each other, in the order they are listed in. -/
theorem reportLines_swapped (hplace : x.1.place = y.1.place) (title : String) :
    Swapped (block x) (block y) (reportLines block (x :: y :: cases) title)
      (reportLines block (y :: x :: cases) title) := by
  have hperm : (x :: y :: cases).Perm (y :: x :: cases) := List.Perm.swap ..
  obtain ⟨harchitecture, hbackend, hkey⟩ : x.1.architecture = y.1.architecture
      ∧ x.1.backend = y.1.backend ∧ x.1.sortKey = y.1.sortKey := by
    simpa [Case.place] using hplace
  have hselected : ∀ architecture backend,
      ¬ (x.1.architecture = architecture ∧ x.1.backend = backend) →
      selected (x :: y :: cases) architecture backend
        = selected (y :: x :: cases) architecture backend :=
    fun _ _ => selected_swapped harchitecture hbackend
  refine Swapped.append ?_ _
  rw [architectureOrder_perm (hperm.map (·.1.architecture))]
  refine Swapped.flatMap (mem_architectureOrder.2 (by simp)) (nodup_architectureOrder _)
    (x := x.1.architecture) (fun architecture _ hne => ?_) ?_
  · unfold architectureLines backendLines
    simp only [backendsOf_perm hperm, hselected architecture _ fun h => hne h.1.symm]
  · refine Swapped.append ?_ _
    rw [backendsOf_perm hperm]
    refine Swapped.flatMap (mem_backendsOf.2 ⟨x, by simp, rfl, rfl⟩) (nodup_backendsOf _ _)
      (fun backend _ hne => ?_)
      (backendLines_swapped harchitecture hbackend hkey)
    unfold backendLines
    rw [hselected x.1.architecture backend fun h => hne h.2.symm]

end Lines

section Order

variable (upper : String → String) {paths : List Path}

/-- Stat files with one counter, which is larger in all of them than in that of `path`. -/
def branchesOf (path : Path) : Files where
  listing _ := none
  rows p := .ok [[if p = path then "1" else "2", "", "branches"]]
  mode _ := .ok ""
  report _ := .ok ""

def shownBranches (path p : Path) : String := if p = path then "1.00" else "2.00"

theorem length_shownBranches (path p : Path) : (shownBranches path p).length = 4 := by
  unfold shownBranches
  split_ifs
  · decide
  · decide

/-- What follows the counters in the block of a file without hotspots. -/
def noSamples : List String :=
  ["", "| Hotspot share | Symbol / object |", "| --- | --- |", "| — | No samples reported |", ""]

def branchesBlock (path : Path) (item : Case × Path) : List String :=
  [caseHeading upper item.1, "", "Counter mode: ``", "", "| Counter | Value |", "| --- | ---: |"]
  ++ ("| Branches | " ++ shownBranches path item.2 ++ " |") :: noSamples

theorem renderCase_branchesOf {path : Path} {item : Case × Path}
    (h : parseCase item.2 = .ok item.1) :
    renderCase upper (branchesOf path) item.2 = .ok (branchesBlock upper path item) := by
  have hcounters : ∀ text shown, (text, shown) ∈ [("1", "1.00"), ("2", "2.00")] →
      instructionsPerCycle (parseStat [[text, "", "branches"]]) = .ok none ∧
      counterLines (counterRows (parseStat [[text, "", "branches"]]) none)
        = ["| Counter | Value |", "| --- | ---: |", "| Branches | " ++ shown ++ " |", ""] := by
    intro text shown hmem
    simp only [List.mem_cons, Prod.mk.injEq, List.not_mem_nil, or_false] at hmem
    rcases hmem with ⟨rfl, rfl⟩ | ⟨rfl, rfl⟩
    · decide +kernel
    · decide +kernel
  obtain ⟨hipc, hlines⟩ := hcounters (if item.2 = path then "1" else "2")
    (shownBranches path item.2) (by unfold shownBranches; split_ifs <;> simp)
  refine bind_eq_ok.2 ⟨item.1, h, bind_eq_ok.2 ⟨"", rfl, bind_eq_ok.2 ⟨_, rfl, bind_eq_ok.2
    ⟨"", rfl, bind_eq_ok.2 ⟨[], rfl, bind_eq_ok.2 ⟨none, hipc, bind_eq_ok.2 ⟨_, rfl, ?_⟩⟩⟩⟩⟩⟩⟩
  rw [hlines]
  rfl

/-- Two files that tie can change places, and the report shows which one came first. -/
theorem exists_files_ne {p q : Path} {rest : List Path} {c d : Case} (hp : parseCase p = .ok c)
    (hq : parseCase q = .ok d) (hplace : c.place = d.place) (hne : p ≠ q)
    (hrest : ∀ path ∈ rest, ∃ case, parseCase path = .ok case) (title : String) :
    ∃ files, renderFiles upper files (p :: q :: rest) title
      ≠ renderFiles upper files (q :: p :: rest) title := by
  obtain ⟨cases, hcases⟩ := exists_cases hrest
  have hall : ∀ {u v : Case × Path}, caseOf u.2 = .ok u → caseOf v.2 = .ok v →
      renderFiles upper (branchesOf p) (u.2 :: v.2 :: rest) title
        = .ok (document (reportLines (branchesBlock upper p) (u :: v :: cases) title)) := by
    intro u v hu hv
    have hmap : (u.2 :: v.2 :: rest).mapM caseOf = .ok (u :: v :: cases) :=
      mapM_eq_ok.2 (.cons hu (.cons hv (mapM_eq_ok.1 hcases)))
    rw [renderFiles_eq (by simp) hmap]
    refine report_eq (fun item hitem => ?_) title
    obtain ⟨path, -, hpath⟩ := (mem_of_mapM hmap item).1 hitem
    obtain ⟨hitem, rfl⟩ := caseOf_eq_ok.1 hpath
    exact renderCase_branchesOf upper hitem
  have hpc : caseOf (c, p).2 = .ok (c, p) := caseOf_eq_ok.2 ⟨hp, rfl⟩
  have hqd : caseOf (d, q).2 = .ok (d, q) := caseOf_eq_ok.2 ⟨hq, rfl⟩
  refine ⟨branchesOf p, fun heq => ?_⟩
  rw [hall hpc hqd, hall hqd hpc, Except.ok.injEq] at heq
  obtain ⟨before, after, hxy, hyx⟩ := @reportLines_swapped (branchesBlock upper p) cases
    (c, p) (d, q) hplace title
  rw [hxy, hyx] at heq
  have hlength : ("| Branches | " ++ shownBranches p p ++ " |").length
      = ("| Branches | " ++ shownBranches p q ++ " |").length := by
    simp only [String.length_append, length_shownBranches]
  have hline := eq_of_document_eq hlength (by decide) heq
  simp [shownBranches, hne.symm] at hline

/-- The report of some stat files is the same for every order in which they are listed, whatever
they hold, if and only if no two of them agree in architecture, backend, operation and size. -/
theorem render_order_iff (hnames : (paths.map Path.name).Nodup)
    (haccepted : ∀ path ∈ paths, ∃ case, parseCase path = .ok case) (title : String) :
    (∀ (files : Files) (listing : Path → Option (List Path)) (args args' : List Path),
      (statPaths files args).Perm paths →
      (statPaths { files with listing := listing } args').Perm paths →
      render upper files args title = render upper { files with listing := listing } args' title) ↔
    Distinguished paths := by
  have hlisting : ∀ (files : Files) (listing : Path → Option (List Path)) (listed : List Path),
      renderFiles upper { files with listing := listing } listed title
        = renderFiles upper files listed title := fun _ _ _ => rfl
  constructor
  · intro h
    refine (List.Nodup.of_map _ hnames).pairwise_of_forall_ne fun p hp q hq hne => ?_
    intro c d hc hd hplace
    have hq' : q ∈ paths.erase p := (List.mem_erase_of_ne hne.symm).2 hq
    have hpq : (p :: q :: (paths.erase p).erase q).Perm paths :=
      ((List.perm_cons_erase hq').symm.cons p).trans (List.perm_cons_erase hp).symm
    obtain ⟨files, hfiles⟩ := exists_files_ne upper hc hd hplace hne (fun path hpath =>
      haccepted path (List.mem_of_mem_erase (List.mem_of_mem_erase hpath))) title
    have harg : ∀ listed, statPaths { files with listing := fun _ => none } listed = listed := by
      intro listed
      simp [statPaths]
    have hsame := h { files with listing := fun _ => none } (fun _ => none)
      (p :: q :: (paths.erase p).erase q) (q :: p :: (paths.erase p).erase q)
      (by rwa [harg]) (by rw [harg]; exact (List.Perm.swap ..).trans hpq)
    unfold render at hsame
    rw [harg, harg] at hsame
    exact hfiles hsame
  · intro hdist files listing args args' hargs hargs'
    unfold render
    rw [hlisting files listing, renderFiles_perm haccepted hdist hargs,
      renderFiles_perm haccepted hdist hargs']

theorem apart_of_place {p q : Path} {c d : Case} (hp : parseCase p = .ok c)
    (hq : parseCase q = .ok d) (h : c.place ≠ d.place) : Apart p q := by
  intro c' d' hc hd
  rw [hp, Except.ok.injEq] at hc
  rw [hq, Except.ok.injEq] at hd
  rwa [← hc, ← hd]

/-- The stat file of `openssl` on `arm64` for 64 bytes. -/
def opensslPath (algorithm operation : String) : Path :=
  ⟨"profiles/", stem "openssl" "arm64" algorithm operation 64 ++ ".stat.csv"⟩

theorem parseCase_opensslPath (algorithm operation : String)
    (halgorithm : algorithm = "aes" ∨ algorithm = "gcm")
    (hoperation : operation = "seal" ∨ operation = "open") :
    parseCase (opensslPath algorithm operation)
      = .ok ⟨"openssl", "arm64", algorithm, operation, 64⟩ := by
  rcases halgorithm with rfl | rfl <;> rcases hoperation with rfl | rfl
  all_goals decide +kernel

theorem render_order_iff_operations :
    render id (branchesOf (opensslPath "aes" "seal"))
        [opensslPath "aes" "seal", opensslPath "aes" "open"] "AEAD perf profiles"
      = render id (branchesOf (opensslPath "aes" "seal"))
        [opensslPath "aes" "open", opensslPath "aes" "seal"] "AEAD perf profiles" := by
  have hseal := parseCase_opensslPath "aes" "seal" (.inl rfl) (.inl rfl)
  have hopen := parseCase_opensslPath "aes" "open" (.inl rfl) (.inr rfl)
  have haccepted : ∀ path ∈ [opensslPath "aes" "seal", opensslPath "aes" "open"],
      ∃ case, parseCase path = .ok case := by
    intro path hpath
    simp only [List.mem_cons, List.not_mem_nil, or_false] at hpath
    rcases hpath with rfl | rfl
    · exact ⟨_, hseal⟩
    · exact ⟨_, hopen⟩
  have hdist : Distinguished [opensslPath "aes" "seal", opensslPath "aes" "open"] :=
    List.pairwise_pair.2 (apart_of_place hseal hopen (by decide +kernel))
  exact (render_order_iff id (by decide +kernel) haccepted "AEAD perf profiles").2 hdist
    (branchesOf (opensslPath "aes" "seal")) (fun _ => none) _ _ (List.Perm.refl _)
    (List.Perm.swap ..)

theorem render_order_algorithms : ¬ ∀ (upper : String → String) (files : Files) (title : String)
    (paths listed : List Path), (paths.map Path.name).Nodup →
    (∀ path ∈ paths, ∃ case, parseCase path = .ok case) → listed.Perm paths →
    renderFiles upper files listed title = renderFiles upper files paths title := by
  intro h
  have haes := parseCase_opensslPath "aes" "seal" (.inl rfl) (.inl rfl)
  have hgcm := parseCase_opensslPath "gcm" "seal" (.inr rfl) (.inl rfl)
  obtain ⟨files, hne⟩ := @exists_files_ne id _ _ [] _ _ haes hgcm rfl (by decide +kernel) (by simp)
    "AEAD perf profiles"
  refine hne (h id files _ _ _ (by decide +kernel) (fun path hpath => ?_) (List.Perm.swap ..))
  simp only [List.mem_cons, List.not_mem_nil, or_false] at hpath
  rcases hpath with rfl | rfl
  · exact ⟨_, hgcm⟩
  · exact ⟨_, haes⟩

end Order

end OfbBench.Profiles
