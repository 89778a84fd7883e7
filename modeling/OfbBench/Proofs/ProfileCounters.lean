import OfbBench.Lib.Except
import OfbBench.Profiles

/-!
# The counters of a profile

Any of the counters can be missing from a stat file. `render_case` lists those that are there, with
two exceptions in which it raises: the cycles are there and not zero but the instructions are
missing, which the guard of the division does not look at; or one of the hotspots it shows has a
share so large that it is read as infinite, which `math.ceil` rejects (`renderCase_counters_iff`).
A share has to reach `2 ^ 1024 - 2 ^ 970` for that (`PyFloat.round_eq_infinite`).
-/

namespace OfbBench.Profiles

open Regex

/-! ## Hotspots -/

section Hotspots

/-- Digits, perhaps with a point and digits after it. -/
def IsNumeral (text : List Char) : Prop :=
  ∃ whole tail, text = whole ++ tail ∧ whole ≠ [] ∧ (∀ c ∈ whole, c.isDigit) ∧
    (tail = [] ∨ ∃ fraction, tail = '.' :: fraction ∧ ∀ c ∈ fraction, c.isDigit)

theorem mem_run_numeral {s : List Char} {m : Captures × List Char}
    (h : m ∈ (Regex.seq (.plus Char.isDigit)
      (.opt (.seq (.lit ['.']) (.plus Char.isDigit)))).run s) :
    ∃ text, s = text ++ m.2 ∧ IsNumeral text := by
  obtain ⟨n, hwhole, n', htail, rfl⟩ := mem_run_seq.1 h
  obtain ⟨whole, rfl, hne, hdigits, -⟩ := mem_run_one_many.1 hwhole
  rcases List.mem_append.1 htail with htail | htail
  · obtain ⟨y, hy, hfraction⟩ := mem_run_lit_seq.1 htail
    obtain ⟨fraction, rfl, -, hdigits', -⟩ := mem_run_one_many.1 hfraction
    refine ⟨whole ++ '.' :: fraction, by simp [hy],
      whole, '.' :: fraction, rfl, hne, hdigits, .inr ⟨fraction, rfl, hdigits'⟩⟩
  · rw [run, List.mem_singleton] at htail
    exact ⟨whole, by simp [htail], whole, [], by simp, hne, hdigits, .inl rfl⟩

/-- The share of a hotspot is the text of a number. -/
theorem group_hotspot {line : List Char} {captures : Captures}
    (h : hotspotPattern.first line = some captures) :
    ∃ text, Regex.group "1" captures = some text ∧ IsNumeral text := by
  obtain ⟨rest, hm⟩ := exists_of_first h
  obtain ⟨n, hspace, n', hn, heq⟩ := mem_run_seq.1 hm
  obtain ⟨-, -, -, hnil⟩ := mem_run_many.1 hspace
  obtain ⟨k, hcapture, k', -, rfl⟩ := mem_run_seq.1 hn
  obtain ⟨text, l, htext, hs, rfl⟩ := mem_run_capture.1 hcapture
  obtain ⟨text', hs', hnumeral⟩ := mem_run_numeral htext
  obtain rfl := List.append_cancel_right (hs.symm.trans hs')
  refine ⟨text, ?_, hnumeral⟩
  rw [(Prod.mk.inj heq).1, hnil]
  simp [Regex.group]

/-- The number a share is written as. -/
def shareOf (share : List Char) : ℚ≥0 := (readMagnitude share).getD 0

theorem float_numeral {text : List Char} (h : IsNumeral text) :
    float text = .ok (PyFloat.round false (shareOf text)) := by
  obtain ⟨whole, tail, rfl, hne, hwhole, htail⟩ := h
  obtain ⟨x, hmagnitude, hx⟩ := pyFloat_numeral hne hwhole htail
  unfold float shareOf
  rw [hx, hmagnitude]
  rfl

/-- The shares of the hotspots that are shown, as they stand in the report. -/
def shares (limit : ℕ) (report : String) : List (List Char) :=
  ((splitLines (universalNewlines report.toList)).filterMap fun line =>
    (hotspotPattern.first line).bind (Regex.group "1")).take limit

theorem hotspotOf_ok (line : List Char) : ∃ entry, hotspotOf line = .ok entry ∧
    entry.map Prod.fst = ((hotspotPattern.first line).bind (Regex.group "1")).map
      fun share => PyFloat.round false (shareOf share) := by
  unfold hotspotOf
  rcases hfirst : hotspotPattern.first line with _ | captures
  · exact ⟨none, rfl, rfl⟩
  · obtain ⟨text, hgroup, hnumeral⟩ := group_hotspot hfirst
    simp only [hgroup, Option.getD_some, Option.bind_some]
    exact ⟨_, bind_eq_ok.2 ⟨_, float_numeral hnumeral, rfl⟩, rfl⟩

theorem parseHotspots_ok (limit : ℕ) (report : String) :
    ∃ hotspots, parseHotspots limit report = .ok hotspots ∧ hotspots.map Prod.fst
      = (shares limit report).map fun share => PyFloat.round false (shareOf share) := by
  choose entry hentry hshare using hotspotOf_ok
  refine ⟨_, bind_eq_ok.2 ⟨_, mapM_of_forall fun line _ => hentry line, rfl⟩, ?_⟩
  unfold shares
  rw [List.map_take, List.map_take, List.filterMap_map, List.map_filterMap, List.map_filterMap]
  simp only [Function.comp_def, id, hshare]

theorem div_five (s : Bool) {m : ℚ≥0} (h : m < 2 ^ 1024) :
    ∃ m', (PyFloat.finite s m).div (.finite false 5) = .ok (.finite s m') := by
  have hlt : m / 5 < 2 ^ 1023 := by
    rw [div_lt_iff₀ (by norm_num)]
    calc m < 2 ^ 1024 := h
      _ = 2 ^ 1023 * 2 := pow_succ 2 1023
      _ ≤ 2 ^ 1023 * 5 := by gcongr; norm_num
  refine ⟨PyFloat.nearest (m / 5), ?_⟩
  simp [PyFloat.div, PyFloat.round_of_lt s hlt]

/-- A hotspot has a bar unless its share is read as infinite. -/
theorem hotspotLine_ok {hotspot : PyFloat × String} {x : ℚ≥0} (h : hotspot.1 = .round false x) :
    (∃ line, hotspotLine hotspot = .ok line) ↔ x + 2 ^ 970 < 2 ^ 1024 := by
  have hinfinite : hotspot.1 = .infinite false ↔ 2 ^ 1024 ≤ x + 2 ^ 970 := by
    rw [h]
    exact PyFloat.round_eq_infinite
  rw [← not_le, ← hinfinite]
  constructor
  · rintro ⟨line, hline⟩ hshare
    obtain ⟨share, hdiv, hline⟩ := bind_eq_ok.1 hline
    obtain ⟨count, hceil, -⟩ := bind_eq_ok.1 hline
    rw [hshare] at hdiv
    obtain rfl : PyFloat.infinite false = share := by simpa [PyFloat.div] using hdiv
    simp [PyFloat.ceil] at hceil
  · intro hfinite
    obtain ⟨s, m, hm⟩ : ∃ s m, hotspot.1 = .finite s m := by
      rw [PyFloat.round_eq] at h
      split_ifs at h
      · exact absurd h hfinite
      · exact ⟨_, _, h⟩
    rw [hm] at h
    obtain ⟨m', hdiv⟩ := div_five s (PyFloat.lt_of_round_eq h.symm)
    exact ⟨_, bind_eq_ok.2 ⟨_, hm ▸ hdiv, bind_eq_ok.2 ⟨_, rfl, rfl⟩⟩⟩

theorem mapM_hotspotLine_ok {hotspots : List (PyFloat × String)} {shares : List (List Char)}
    (h : hotspots.map Prod.fst = shares.map fun share => PyFloat.round false (shareOf share)) :
    (∃ rows, hotspots.mapM hotspotLine = .ok rows) ↔
      ∀ share ∈ shares, shareOf share + 2 ^ 970 < 2 ^ 1024 := by
  rw [exists_mapM_iff]
  induction hotspots generalizing shares with
  | nil =>
    obtain rfl : shares = [] := by simpa using h.symm
    simp
  | cons hotspot hotspots ih =>
    obtain ⟨share, shares, rfl, hshare, hrest⟩ := List.map_eq_cons_iff.1 h.symm
    rw [List.forall_mem_cons, List.forall_mem_cons, ih hrest.symm, hotspotLine_ok hshare.symm]

theorem hotspotLines_ok {hotspots : List (PyFloat × String)} {shares : List (List Char)}
    (h : hotspots.map Prod.fst = shares.map fun share => PyFloat.round false (shareOf share)) :
    (∃ lines, hotspotLines hotspots = .ok lines) ↔
      ∀ share ∈ shares, shareOf share + 2 ^ 970 < 2 ^ 1024 := by
  rw [← mapM_hotspotLine_ok h]
  unfold hotspotLines
  split_ifs with hnil
  · rw [hnil]
    exact ⟨fun _ => ⟨[], rfl⟩, fun _ => ⟨_, rfl⟩⟩
  · constructor
    · rintro ⟨lines, hlines⟩
      obtain ⟨rows, hrows, -⟩ := bind_eq_ok.1 hlines
      exact ⟨rows, hrows⟩
    · rintro ⟨rows, hrows⟩
      exact ⟨_, bind_eq_ok.2 ⟨rows, hrows, rfl⟩⟩

end Hotspots

/-! ## Listed counters -/

section Listed

/-- What is listed, and the event each of them is the value of. -/
def listedEvents : List (String × String) :=
  [("Cycles", "cycles"), ("Instructions", "instructions"), ("Branches", "branches"),
    ("Branch misses", "branch-misses"), ("Cache references", "cache-references"),
    ("Cache misses", "cache-misses"), ("Task clock (ms)", "task-clock"),
    ("CPU clock (ms)", "cpu-clock")]

def listedNames : List String := "Instructions/cycle" :: listedEvents.map Prod.fst

/-- One of the lines is a row for this counter. -/
def Lists (lines : List String) (name : String) : Prop :=
  ∃ value, "| " ++ name ++ " | " ++ value ++ " |" ∈ lines

/-- The first cell of a table row, with the space that ends it. -/
def firstCell (line : String) : List Char := (line.toList.drop 2).takeWhile (· ≠ '|')

theorem firstCell_row {name : String} (h : '|' ∉ name.toList) (value : String) :
    firstCell ("| " ++ name ++ " | " ++ value ++ " |") = name.toList ++ [' '] := by
  unfold firstCell
  have hdrop : ("| " ++ name ++ " | " ++ value ++ " |").toList.drop 2
      = (name.toList ++ [' ']) ++ '|' :: ' ' :: (value.toList ++ [' ', '|']) := by simp
  have hpos : ∀ c ∈ name.toList ++ [' '], (fun c => decide (c ≠ '|')) c := by
    intro c hc
    rw [decide_eq_true_eq]
    rintro rfl
    rcases List.mem_append.1 hc with hc | hc
    · exact h hc
    · exact absurd hc (by decide)
  rw [hdrop, List.takeWhile_append_of_pos hpos, List.takeWhile_cons_of_neg (by decide),
    List.append_nil]

/-- A line that is no row for a counter. -/
def Silent (line : String) : Prop := ∀ name ∈ listedNames, firstCell line ≠ name.toList ++ [' ']

instance : DecidablePred Silent := fun line =>
  inferInstanceAs (Decidable (∀ name ∈ listedNames, firstCell line ≠ name.toList ++ [' ']))

theorem silent_of_head {line : String} {c : Char} (h : (line.toList.drop 2).head? = some c)
    (hc : c ∉ ['C', 'I', 'B', 'T']) : Silent line := by
  intro name hname heq
  have hinitial : ∀ name ∈ listedNames, name.toList.headD ' ' ∈ ['C', 'I', 'B', 'T'] := by decide
  obtain ⟨rest, hrest⟩ := List.head?_eq_some_iff.1 h
  unfold firstCell at heq
  rw [hrest, List.takeWhile_cons] at heq
  refine hc ?_
  have hmem := hinitial name hname
  rcases hchars : name.toList with _ | ⟨d, tail⟩
  · rw [hchars] at hmem
    exact absurd hmem (by decide)
  · rw [hchars] at hmem heq
    split_ifs at heq
    · rwa [(List.cons.inj heq).1]
    · exact absurd heq (by simp)

/-- What a block lists is what the rows of its counter table hold. -/
theorem lists_iff {front back : List String} {rows : List (String × Option PyFloat)} {name : String}
    (hname : name ∈ listedNames) (hrows : ∀ row ∈ rows, row.1 ∈ listedNames)
    (hfront : ∀ line ∈ front, Silent line) (hback : ∀ line ∈ back, Silent line) :
    Lists (front ++ counterLines rows ++ back) name ↔
      ∃ row ∈ rows, row.1 = name ∧ row.2.isSome := by
  have hpipe : ∀ name ∈ listedNames, '|' ∉ name.toList := by decide
  have hhead : ∀ line ∈ ["| Counter | Value |", "| --- | ---: |", ""], Silent line := by decide
  constructor
  · rintro ⟨value, hmem⟩
    have hcell := firstCell_row (hpipe name hname) value
    by_cases hrow : "| " ++ name ++ " | " ++ value ++ " |"
        ∈ rows.filterMap fun row => row.2.map (counterLine row.1)
    · obtain ⟨row, hmem, hline⟩ := List.mem_filterMap.1 hrow
      obtain ⟨x, hx, hline⟩ := Option.map_eq_some_iff.1 hline
      unfold counterLine at hline
      rw [← hline, firstCell_row (hpipe _ (hrows row hmem)), List.append_left_inj] at hcell
      exact ⟨row, hmem, String.toList_injective hcell, by rw [hx]; rfl⟩
    · have hsilent : Silent ("| " ++ name ++ " | " ++ value ++ " |") := by
        unfold counterLines at hmem
        simp only [List.mem_append] at hmem
        rcases hmem with (hmem | (hmem | hmem) | hmem) | hmem
        · exact hfront _ hmem
        · exact hhead _ (List.mem_append_left [""] hmem)
        · exact absurd hmem hrow
        · exact hhead _ (List.mem_append_right ["| Counter | Value |", "| --- | ---: |"] hmem)
        · exact hback _ hmem
      exact absurd hcell (hsilent name hname)
  · rintro ⟨row, hmem, rfl, hsome⟩
    obtain ⟨x, hx⟩ := Option.isSome_iff_exists.1 hsome
    refine ⟨formatCounter (some x), List.mem_append_left _ (List.mem_append_right _ ?_)⟩
    refine List.mem_append_left _ (List.mem_append_right _ (List.mem_filterMap.2 ⟨row, hmem, ?_⟩))
    rw [hx]
    rfl

theorem silent_of_hotspotLine {hotspot : PyFloat × String} {line : String}
    (h : hotspotLine hotspot = .ok line) : Silent line := by
  obtain ⟨share, -, h⟩ := bind_eq_ok.1 h
  obtain ⟨count, -, h⟩ := bind_eq_ok.1 h
  obtain rfl := Except.ok.inj h
  refine @silent_of_head _ '`' ?_ (by decide)
  simp

theorem silent_of_hotspotLines {hotspots : List (PyFloat × String)} {lines : List String}
    (h : hotspotLines hotspots = .ok lines) : ∀ line ∈ lines, Silent line := by
  have hfixed : ∀ line ∈ ["| Hotspot share | Symbol / object |", "| --- | --- |", "",
      "| — | No samples reported |"], Silent line := by decide
  have hall : ∀ rows, (∀ line ∈ rows, Silent line) →
      ∀ line ∈ ["| Hotspot share | Symbol / object |", "| --- | --- |"] ++ rows ++ [""],
        Silent line := by
    intro rows hrows line hline
    simp only [List.mem_append] at hline
    rcases hline with (hline | hline) | hline
    · exact hfixed line (List.mem_append_left ["", "| — | No samples reported |"] hline)
    · exact hrows line hline
    · rw [List.mem_singleton] at hline
      exact hfixed line (by simp [hline])
  unfold hotspotLines at h
  split_ifs at h
  · obtain rfl := Except.ok.inj h
    exact hall _ fun line hline => hfixed line (by simp_all)
  · obtain ⟨rows, hrows, h⟩ := bind_eq_ok.1 h
    obtain rfl := Except.ok.inj h
    refine hall rows fun line hline => ?_
    obtain ⟨hotspot, -, hrow⟩ := (mem_of_mapM hrows line).1 hline
    exact silent_of_hotspotLine hrow

end Listed

/-! ## The block of a case -/

section Block

variable {rows : List (List String)}

/-- The last row that counts for an event counts this value. -/
def LastCounts (rows : List (List String)) (event : String) (value : PyFloat) : Prop :=
  ∃ before row after, rows = before ++ row :: after ∧ statEntry row = some (event, value) ∧
    ∀ row ∈ after, ∀ value, statEntry row ≠ some (event, value)

theorem filter_statEntry_eq_none {row : List String} {event : String} :
    (statEntry row).filter (fun entry => entry.1 = event) = none ↔
      ∀ value, statEntry row ≠ some (event, value) := by
  rcases statEntry row with _ | ⟨e, v⟩
  · simp
  · simp only [Option.filter_some, decide_eq_true_eq]
    split_ifs with h
    · simp [h]
    · simp [h]

theorem get?_parseStat_eq_some {event : String} {value : PyFloat} :
    (parseStat rows).get? event = some value ↔ LastCounts rows event value := by
  unfold parseStat LastCounts
  rw [Dict.get?_lasts, List.filter_filterMap, Option.map_eq_some_iff]
  constructor
  · rintro ⟨⟨e, v⟩, hlast, rfl⟩
    obtain ⟨ys, hys⟩ := List.getLast?_eq_some_iff.1 hlast
    obtain ⟨before, rest, rfl, -, hrest⟩ := List.filterMap_eq_append_iff.1 hys
    obtain ⟨skipped, row, after, rfl, -, hrow, hafter⟩ := List.filterMap_eq_cons_iff.1 hrest
    obtain ⟨hentry, he⟩ := Option.filter_eq_some_iff.1 hrow
    rw [decide_eq_true_eq] at he
    subst he
    refine ⟨before ++ skipped, row, after, by simp, hentry, fun r hr => ?_⟩
    exact filter_statEntry_eq_none.1 (List.filterMap_eq_nil_iff.1 hafter r hr)
  · rintro ⟨before, row, after, rfl, hentry, hafter⟩
    refine ⟨(event, value), ?_, rfl⟩
    have hnil : after.filterMap (fun row => (statEntry row).filter fun entry => entry.1 = event)
        = [] := List.filterMap_eq_nil_iff.2 fun r hr => filter_statEntry_eq_none.2 (hafter r hr)
    have hkept : (statEntry row).filter (fun entry => entry.1 = event) = some (event, value) := by
      simp [hentry]
    rw [List.filterMap_append, List.filterMap_cons_some (f := fun row =>
      (statEntry row).filter fun entry => entry.1 = event) hkept, hnil, List.getLast?_concat]

theorem get?_parseStat_isSome {event : String} : ((parseStat rows).get? event).isSome ↔
    ∃ row ∈ rows, ∃ value, statEntry row = some (event, value) := by
  unfold parseStat
  rw [Dict.get?_lasts, List.filter_filterMap, Option.isSome_map, List.getLast?_isSome, ne_eq,
    List.filterMap_eq_nil_iff]
  simp only [filter_statEntry_eq_none]
  push Not
  rfl

/-- If the cycles are counted and not zero, then so are the instructions. -/
def Divisible (rows : List (List String)) : Prop :=
  ∀ cycles, LastCounts rows "cycles" cycles → cycles.truthy →
    ∃ row ∈ rows, ∃ value, statEntry row = some ("instructions", value)

/-- What a block says of the counters: it lists each that has a value, and the instructions for a
cycle if both have one and the cycles are not zero. -/
structure ListsCounters (counters : Dict String PyFloat) (lines : List String) : Prop where
  events : ∀ pair ∈ listedEvents, Lists lines pair.1 ↔ (counters.get? pair.2).isSome
  ratio : Lists lines "Instructions/cycle" ↔ (counters.get? "instructions").isSome ∧
    ∃ cycles, counters.get? "cycles" = some cycles ∧ cycles.truthy

theorem counterRows_listed (counters : Dict String PyFloat) (ipc : Option PyFloat) :
    ∀ row ∈ counterRows counters ipc, row.1 ∈ listedNames := by
  intro row hrow
  have hmem := List.mem_map_of_mem (f := Prod.fst) hrow
  exact (by decide : ∀ name ∈ ["Cycles", "Instructions", "Instructions/cycle", "Branches",
    "Branch misses", "Cache references", "Cache misses", "Task clock (ms)", "CPU clock (ms)"],
    name ∈ listedNames) row.1 hmem

theorem exists_counterRow (counters : Dict String PyFloat) (ipc : Option PyFloat) :
    (∀ pair ∈ listedEvents, (∃ row ∈ counterRows counters ipc, row.1 = pair.1 ∧ row.2.isSome) ↔
      (counters.get? pair.2).isSome) ∧
    ((∃ row ∈ counterRows counters ipc, row.1 = "Instructions/cycle" ∧ row.2.isSome) ↔
      ipc.isSome) := by
  unfold counterRows listedEvents
  simp

/-- The division fails if and only if the cycles are there and not zero without instructions. -/
theorem instructionsPerCycle_ok : (∃ ipc, instructionsPerCycle (parseStat rows) = .ok ipc) ↔
    Divisible rows := by
  unfold instructionsPerCycle Divisible
  rcases hcycles : (parseStat rows).get? "cycles" with _ | cycles
  · refine ⟨fun _ cycles hlast => ?_, fun _ => ⟨none, rfl⟩⟩
    rw [get?_parseStat_eq_some.2 hlast] at hcycles
    simp at hcycles
  · have hlast : ∀ value, LastCounts rows "cycles" value ↔ value = cycles := by
      intro value
      rw [← get?_parseStat_eq_some, hcycles, Option.some.injEq, eq_comm]
    simp only [hlast, forall_eq, ← get?_parseStat_isSome]
    split_ifs with htruthy
    · rcases (parseStat rows).get? "instructions" with _ | instructions
      · simp [htruthy]
      · obtain ⟨ipc, hipc⟩ := PyFloat.div_of_truthy htruthy instructions
        exact ⟨fun _ _ => rfl, fun _ => ⟨some ipc, bind_eq_ok.2 ⟨ipc, hipc, rfl⟩⟩⟩
    · exact ⟨fun _ h => absurd h htruthy, fun _ => ⟨none, rfl⟩⟩

theorem instructionsPerCycle_isSome {counters : Dict String PyFloat} {ipc : Option PyFloat}
    (h : instructionsPerCycle counters = .ok ipc) : ipc.isSome ↔
      (counters.get? "instructions").isSome ∧
        ∃ cycles, counters.get? "cycles" = some cycles ∧ cycles.truthy := by
  unfold instructionsPerCycle at h
  rcases hcycles : counters.get? "cycles" with _ | cycles
  · rw [hcycles] at h
    obtain rfl := Except.ok.inj h
    simp
  · simp only [hcycles] at h
    split_ifs at h with htruthy
    · rcases hinstructions : counters.get? "instructions" with _ | instructions
      · simp [hinstructions] at h
      · simp only [hinstructions] at h
        obtain ⟨x, -, h⟩ := bind_eq_ok.1 h
        obtain rfl := Except.ok.inj h
        simp [htruthy]
    · obtain rfl := Except.ok.inj h
      simp [htruthy]

/-- `render_case` finishes and lists the counters as it should if and only if the cycles do not
come without instructions, unless they are zero, and the shares of the hotspots that are shown are
below `2 ^ 1024 - 2 ^ 970`. -/
theorem renderCase_counters_iff (upper : String → String) (files : Files) {statPath : Path}
    {case : Case} {mode report : String} (hcase : parseCase statPath = .ok case)
    (hmode : files.mode (statPath.withName (stemOf statPath.name ++ ".mode")) = .ok mode)
    (hrows : files.rows statPath = .ok rows)
    (hreport : files.report (statPath.withName (stemOf statPath.name ++ ".report.txt"))
      = .ok report) :
    (∃ lines, renderCase upper files statPath = .ok lines ∧
      ListsCounters (parseStat rows) lines) ↔
    Divisible rows ∧ ∀ share ∈ shares 10 report, shareOf share + 2 ^ 970 < 2 ^ 1024 := by
  obtain ⟨hotspots, hhotspots, hshare⟩ := parseHotspots_ok 10 report
  rw [← instructionsPerCycle_ok, ← hotspotLines_ok hshare]
  constructor
  · rintro ⟨lines, hlines, -⟩
    obtain ⟨_, -, hlines⟩ := bind_eq_ok.1 hlines
    obtain ⟨_, -, hlines⟩ := bind_eq_ok.1 hlines
    obtain ⟨rows', hrows', hlines⟩ := bind_eq_ok.1 hlines
    obtain rfl := Except.ok.inj (hrows.symm.trans hrows')
    obtain ⟨report', hreport', hlines⟩ := bind_eq_ok.1 hlines
    obtain rfl := Except.ok.inj (hreport.symm.trans hreport')
    obtain ⟨hotspots', hhotspots', hlines⟩ := bind_eq_ok.1 hlines
    obtain rfl := Except.ok.inj (hhotspots.symm.trans hhotspots')
    obtain ⟨ipc, hipc, hlines⟩ := bind_eq_ok.1 hlines
    obtain ⟨hotspotRows, hhotspotRows, -⟩ := bind_eq_ok.1 hlines
    exact ⟨⟨ipc, hipc⟩, hotspotRows, hhotspotRows⟩
  · rintro ⟨⟨ipc, hipc⟩, hotspotRows, hhotspotRows⟩
    refine ⟨_, bind_eq_ok.2 ⟨case, hcase, bind_eq_ok.2 ⟨mode, hmode, bind_eq_ok.2 ⟨rows, hrows,
      bind_eq_ok.2 ⟨report, hreport, bind_eq_ok.2 ⟨hotspots, hhotspots, bind_eq_ok.2 ⟨ipc, hipc,
      bind_eq_ok.2 ⟨hotspotRows, hhotspotRows, rfl⟩⟩⟩⟩⟩⟩⟩, ?_⟩
    have hfront : ∀ line ∈ [caseHeading upper case, "", "Counter mode: `"
        ++ String.ofList (strip (universalNewlines mode.toList)) ++ "`", ""], Silent line := by
      have hempty : Silent "" := by decide
      simp only [List.forall_mem_cons]
      exact ⟨@silent_of_head _ '#' (by simp [caseHeading]) (by decide), hempty,
        @silent_of_head _ 'u' (by simp) (by decide), hempty, by simp⟩
    have hlists : ∀ name ∈ listedNames, _ := fun name hname => lists_iff hname
      (counterRows_listed (parseStat rows) ipc) hfront (silent_of_hotspotLines hhotspotRows)
    obtain ⟨hevents, hratio⟩ := exists_counterRow (parseStat rows) ipc
    refine ⟨fun pair hpair => ?_, ?_⟩
    · have hname : pair.1 ∈ listedNames := List.mem_cons_of_mem _ (List.mem_map_of_mem hpair)
      exact (hlists pair.1 hname).trans (hevents pair hpair)
    · rw [← instructionsPerCycle_isSome hipc, ← hratio]
      exact hlists _ (List.mem_cons_self ..)

/-- A stat file on `arm64` with these rows, and its companions. -/
def armFiles (rows : List (List String)) : Files where
  listing _ := none
  rows _ := .ok rows
  mode _ := .ok "hardware\n"
  report _ := .ok "    62.50%  gcm_ghash_v8  libcrypto.so.3\n"

def armPath : Path := ⟨"profiles/", "openssl__arm64__aes-128-gcm__seal__64.stat.csv"⟩

theorem renderCase_counters_iff_both :
    ∃ lines, renderCase id (armFiles [["4000", "", "cycles"], ["9000", "", "instructions"]]) armPath
        = .ok lines ∧
      ListsCounters (parseStat [["4000", "", "cycles"], ["9000", "", "instructions"]]) lines := by
  have hcase : parseCase armPath = .ok ⟨"openssl", "arm64", "aes-128-gcm", "seal", 64⟩ := by
    decide +kernel
  have hshares : shares 10 "    62.50%  gcm_ghash_v8  libcrypto.so.3\n" = ["62.50".toList] := by
    decide +kernel
  have hshare : shareOf "62.50".toList ≤ 100 := by decide +kernel
  refine (renderCase_counters_iff id (armFiles _) hcase rfl rfl rfl).2
    ⟨fun _ _ _ => ⟨["9000", "", "instructions"], by simp, .finite false 9000, by decide +kernel⟩,
      ?_⟩
  have hsmall : shareOf "62.50".toList < 2 ^ 1023 :=
    calc shareOf "62.50".toList ≤ 100 := hshare
      _ < 2 ^ 7 := by norm_num
      _ ≤ 2 ^ 1023 := pow_le_pow_right₀ one_le_two (by omega)
  rw [hshares, List.forall_mem_singleton]
  exact (add_lt_add_left hsmall _).trans_le PyFloat.two_pow_add_le

theorem renderCase_notCounted : ¬ ∀ (upper : String → String) (files : Files) (statPath : Path)
    (case : Case) (mode report : String) (rows : List (List String)),
    parseCase statPath = .ok case →
    files.mode (statPath.withName (stemOf statPath.name ++ ".mode")) = .ok mode →
    files.rows statPath = .ok rows →
    files.report (statPath.withName (stemOf statPath.name ++ ".report.txt")) = .ok report →
    ∃ lines, renderCase upper files statPath = .ok lines ∧
      ListsCounters (parseStat rows) lines := by
  intro h
  obtain ⟨lines, hlines, -⟩ := h id
    (armFiles [["4000", "", "cycles"], ["<not counted>", "", "instructions"]]) armPath
    ⟨"openssl", "arm64", "aes-128-gcm", "seal", 64⟩ "hardware\n"
    "    62.50%  gcm_ghash_v8  libcrypto.so.3\n" _ (by decide +kernel) rfl rfl rfl
  have hraises : renderCase id
      (armFiles [["4000", "", "cycles"], ["<not counted>", "", "instructions"]]) armPath
      = .error .typeError := by
    decide +kernel
  rw [hraises] at hlines
  simp at hlines

end Block

end OfbBench.Profiles
