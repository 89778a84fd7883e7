import OfbBench.Lib.Except

/-!
# Markdown tables

The cells of a table, read from its text: each line is cut at the pipes that no backslash escapes,
where a backslash escapes a pipe or a backslash after it. The space on both sides of a cell is not
part of it.

A pipe that ends a cell comes after a space, so that the cells of a line are read independently of
each other (`splitCells_append`, `decodeRow_iff`). A cell in which pipes have been escaped is read
back if and only if no backslash in it stands before a backslash or a pipe (`reads_escapePipes`),
and one in which they have not if moreover it has no pipe (`reads_self`). A line break inside a cell
leaves the table with more lines than rows (`length_lines`).
-/

namespace OfbBench.Markdown

def isLineBreak (c : Char) : Bool := c = '\n' ∨ c = '\r'

/-- Whether a backslash escapes the character. -/
def isEscapable (c : Char) : Bool := c = '\\' ∨ c = '|'

/-- The pieces of a line between the pipes that are not escaped, with the escapes undone. -/
def splitCells : List Char → List (List Char)
  | [] => [[]]
  | [c] => if c = '|' then [[], []] else [[c]]
  | c :: d :: rest =>
    if c = '|' then [] :: splitCells (d :: rest)
    else if c = '\\' ∧ isEscapable d then (splitCells rest).modifyHead (d :: ·)
    else (splitCells (d :: rest)).modifyHead (c :: ·)

/-- The content of a cell between its two spaces. -/
def trimCell : List Char → Option (List Char)
  | ' ' :: rest => if rest.getLast? = some ' ' then some rest.dropLast else none
  | _ => none

/-- The cells of a line that starts and ends with a pipe. -/
def decodeRow (line : List Char) : Option (List (List Char)) :=
  match splitCells line with
  | [] :: pieces =>
    if pieces.getLast? = some [] then pieces.dropLast.mapM trimCell else none
  | _ => none

/-- The headings and the rows of a table; its second line separates them. -/
def decodeTable (text : List Char) : Option (List (List Char) × List (List (List Char))) :=
  match text.splitOnP isLineBreak with
  | heading :: _ :: body => do
    let headings ← decodeRow heading
    let rows ← body.mapM decodeRow
    pure (headings, rows)
  | _ => none

def escapePipes (text : List Char) : List Char :=
  text.flatMap fun c => if c = '|' then ['\\', '|'] else [c]

/-- No backslash stands before a backslash or a pipe. -/
def Unescaped (text : List Char) : Prop := ¬ ['\\', '\\'] <:+: text ∧ ¬ ['\\', '|'] <:+: text

section Split

variable {c d : Char} {t rest : List Char}

theorem splitCells_ne_nil (t : List Char) : splitCells t ≠ [] := by
  fun_induction splitCells t
  all_goals simp_all

theorem splitCells_pipe (rest : List Char) : splitCells ('|' :: rest) = [] :: splitCells rest := by
  cases rest with
  | nil => rfl
  | cons d rest => simp [splitCells]

theorem splitCells_escape (hd : isEscapable d) (rest : List Char) :
    splitCells ('\\' :: d :: rest) = (splitCells rest).modifyHead (d :: ·) := by
  simp [splitCells, hd]

theorem splitCells_cons (hc : c ≠ '|') (h : c = '\\' → ∀ d ∈ rest.head?, ¬ isEscapable d) :
    splitCells (c :: rest) = (splitCells rest).modifyHead (c :: ·) := by
  cases rest with
  | nil => simp [splitCells, hc]
  | cons d rest =>
    have hnot : ¬ (c = '\\' ∧ isEscapable d = true) := fun hcd => h hcd.1 d rfl hcd.2
    rw [splitCells, if_neg hc, if_neg hnot]

/-- A pipe after a space ends a cell. -/
theorem splitCells_append (t rest : List Char) :
    splitCells (t ++ ' ' :: '|' :: rest) = splitCells (t ++ [' ']) ++ splitCells rest := by
  have hpush : ∀ {u v w : List (List Char)} (c : Char), u ≠ [] → v = u ++ w →
      v.modifyHead (c :: ·) = u.modifyHead (c :: ·) ++ w := by
    rintro (_ | ⟨x, u⟩) v w c hu rfl
    · exact absurd rfl hu
    · rfl
  have hspace : splitCells (' ' :: '|' :: rest) = splitCells [' '] ++ splitCells rest := by
    rw [splitCells_cons (by decide) (by simp), splitCells_pipe]
    rfl
  induction t using splitCells.induct with
  | case1 => exact hspace
  | case2 =>
    rw [List.cons_append, List.cons_append, splitCells_pipe, List.nil_append, hspace]
    rfl
  | case3 c hc =>
    have hplain : ∀ tail, splitCells (c :: ' ' :: tail)
        = (splitCells (' ' :: tail)).modifyHead (c :: ·) := fun tail =>
      splitCells_cons hc (by simp [isEscapable])
    change splitCells (c :: ' ' :: '|' :: rest) = splitCells (c :: [' ']) ++ splitCells rest
    rw [hplain, hplain]
    exact hpush c (splitCells_ne_nil _) hspace
  | case4 d t ih =>
    simp only [List.cons_append] at ih ⊢
    rw [splitCells_pipe, splitCells_pipe, ih]
    rfl
  | case5 c d t hc hescape ih =>
    obtain ⟨rfl, hd⟩ := hescape
    simp only [List.cons_append]
    rw [splitCells_escape hd, splitCells_escape hd]
    exact hpush d (splitCells_ne_nil _) ih
  | case6 c d t hc hescape ih =>
    have hplain : ∀ tail, splitCells (c :: (d :: tail))
        = (splitCells (d :: tail)).modifyHead (c :: ·) := by
      intro tail
      refine splitCells_cons hc fun h e he => ?_
      obtain rfl : d = e := by simpa using he
      exact fun hd => hescape ⟨h, hd⟩
    simp only [List.cons_append] at ih ⊢
    rw [hplain, hplain]
    exact hpush c (splitCells_ne_nil _) ih

/-- In a text that is one cell every pipe has been escaped. -/
theorem length_of_splitCells {cell : List Char} (h : splitCells t = [cell]) :
    cell.length + t.count '|' ≤ t.length := by
  induction t using splitCells.induct generalizing cell with
  | case1 =>
    obtain rfl : [] = cell := by simpa [splitCells] using h
    simp
  | case2 => simp [splitCells] at h
  | case3 c hc =>
    obtain rfl : [c] = cell := by simpa [splitCells, hc] using h
    simp [hc]
  | case4 d t ih =>
    rw [splitCells_pipe, List.cons.injEq] at h
    exact absurd h.2 (splitCells_ne_nil _)
  | case5 c d t hc hescape ih =>
    obtain ⟨rfl, hd⟩ := hescape
    rw [splitCells_escape hd] at h
    rcases hrest : splitCells t with _ | ⟨cell', _ | ⟨x, rest⟩⟩
    · exact absurd hrest (splitCells_ne_nil _)
    · rw [hrest] at h
      obtain rfl : d :: cell' = cell := by simpa using h
      have hle := ih hrest
      have hcount : ('\\' :: d :: t).count '|' ≤ t.count '|' + 1 := by
        rw [List.count_cons_of_ne (by decide), List.count_cons]
        split_ifs <;> omega
      simp only [List.length_cons]
      omega
    · rw [hrest] at h
      simp at h
  | case6 c d t hc hescape ih =>
    rw [splitCells, if_neg hc, if_neg hescape] at h
    rcases hrest : splitCells (d :: t) with _ | ⟨cell', _ | ⟨x, rest⟩⟩
    · exact absurd hrest (splitCells_ne_nil _)
    · rw [hrest] at h
      obtain rfl : c :: cell' = cell := by simpa using h
      have hle := ih hrest
      rw [List.count_cons_of_ne hc]
      simp only [List.length_cons] at hle ⊢
      omega
    · rw [hrest] at h
      simp at h

end Split

/-! ## Cells -/

/-- The text of a cell is read back as `cell`. -/
def Reads (text cell : List Char) : Prop := splitCells (text ++ [' ']) = [cell ++ [' ']]

section Cells

variable {c d : Char} {t cell : List Char}

theorem length_escapePipes (t : List Char) : (escapePipes t).length = t.length + t.count '|' := by
  induction t with
  | nil => rfl
  | cons c t ih =>
    unfold escapePipes at ih ⊢
    rw [List.flatMap_cons, List.length_append, ih, List.count_cons]
    by_cases hc : c = '|'
    · simp [hc]
      omega
    · simp [hc]
      omega

theorem count_escapePipes (t : List Char) : (escapePipes t).count '|' = t.count '|' := by
  induction t with
  | nil => rfl
  | cons c t ih =>
    unfold escapePipes at ih ⊢
    rw [List.flatMap_cons, List.count_append, ih, List.count_cons]
    by_cases hc : c = '|'
    · simp [hc]
      omega
    · simp [hc]

theorem escapePipes_of_notMem (h : '|' ∉ t) : escapePipes t = t := by
  unfold escapePipes
  have hsingle : ∀ c ∈ t, (if c = '|' then ['\\', '|'] else [c]) = [c] := by
    intro c hc
    rw [if_neg]
    rintro rfl
    exact h hc
  rw [List.flatMap_congr hsingle, List.flatMap_singleton']

theorem modifyHead_eq_singleton {pieces : List (List Char)} :
    pieces.modifyHead (c :: ·) = [c :: cell] ↔ pieces = [cell] := by
  rcases pieces with _ | ⟨x, pieces⟩
  · simp
  · simp

theorem unescaped_cons : Unescaped (c :: t) ↔
    ¬ (c = '\\' ∧ ∃ d ∈ t.head?, isEscapable d) ∧ Unescaped t := by
  unfold Unescaped isEscapable
  rw [List.infix_cons_iff, List.infix_cons_iff]
  cases t with
  | nil => simp
  | cons d t =>
    simp only [List.cons_prefix_cons, List.nil_prefix, and_true, List.head?_cons, Option.mem_def,
      Option.some.injEq, exists_eq_left', decide_eq_true_eq, @eq_comm _ '\\', @eq_comm _ '|']
    tauto

/-- A backslash that the next character makes an escape is lost: too few characters are left. -/
theorem not_reads_of_escape (hd : d ∈ t.head?) (hescapable : isEscapable d) :
    ¬ Reads ('\\' :: escapePipes t) ('\\' :: t) := by
  intro hread
  obtain ⟨rest, rfl⟩ := List.head?_eq_some_iff.1 hd
  obtain ⟨tail, htail⟩ : ∃ tail, escapePipes (d :: rest) = '\\' :: tail := by
    unfold isEscapable at hescapable
    rw [decide_eq_true_eq] at hescapable
    rcases hescapable with rfl | rfl
    · exact ⟨_, rfl⟩
    · exact ⟨_, rfl⟩
  have hlength := length_escapePipes (d :: rest)
  have hcount := count_escapePipes (d :: rest)
  unfold Reads at hread
  rw [htail] at hlength hcount hread
  rw [List.cons_append, List.cons_append, splitCells_escape (by decide), List.cons_append,
    modifyHead_eq_singleton] at hread
  have hle := length_of_splitCells hread
  rw [List.count_cons_of_ne (by decide)] at hcount
  simp only [List.length_append, List.length_cons, List.count_append] at hle hlength
  omega

/-- What comes after a backslash in the text comes after it in the cell too. -/
theorem not_escapable_of_head (h : ¬ ∃ e ∈ t.head?, isEscapable e)
    (hd : d ∈ (escapePipes t ++ [' ']).head?) : ¬ isEscapable d := by
  rcases t with _ | ⟨e, t⟩
  · obtain rfl : ' ' = d := by simpa [escapePipes] using hd
    decide
  · have he : ¬ isEscapable e := fun he => h ⟨e, rfl, he⟩
    have hne : e ≠ '|' := by
      rintro rfl
      exact he (by decide)
    obtain rfl : e = d := by simpa [escapePipes, hne] using hd
    exact he

/-- A cell with its pipes escaped is read back if and only if it has nothing that reads as an
escape itself. -/
theorem reads_escapePipes (t : List Char) : Reads (escapePipes t) t ↔ Unescaped t := by
  induction t with
  | nil => simp [Reads, escapePipes, splitCells, Unescaped]
  | cons c t ih =>
    have hcons : escapePipes (c :: t) = (if c = '|' then ['\\', '|'] else [c]) ++ escapePipes t :=
      List.flatMap_cons
    rw [hcons, unescaped_cons, ← ih]
    by_cases hpipe : c = '|'
    · subst hpipe
      unfold Reads
      rw [if_pos rfl, List.append_assoc, List.cons_append, List.cons_append,
        splitCells_escape (by decide), List.cons_append, modifyHead_eq_singleton, List.nil_append]
      simp
    rw [if_neg hpipe, List.singleton_append]
    by_cases hescape : c = '\\' ∧ ∃ d ∈ t.head?, isEscapable d
    · refine iff_of_false ?_ fun h => h.1 hescape
      obtain ⟨rfl, d, hd, hescapable⟩ := hescape
      exact not_reads_of_escape hd hescapable
    · unfold Reads
      rw [List.cons_append, List.cons_append, splitCells_cons hpipe fun hc d hd =>
        not_escapable_of_head (fun h => hescape ⟨hc, h⟩) hd, modifyHead_eq_singleton]
      exact (and_iff_right hescape).symm

/-- A cell as it is is read back if moreover it has no pipe. -/
theorem reads_self (t : List Char) : Reads t t ↔ Unescaped t ∧ '|' ∉ t := by
  constructor
  · intro h
    have hle := length_of_splitCells h
    have hpipe : '|' ∉ t := by
      rw [← List.count_eq_zero]
      simp only [List.length_append, List.count_append] at hle
      omega
    refine ⟨?_, hpipe⟩
    rw [← reads_escapePipes, escapePipes_of_notMem hpipe]
    exact h
  · rintro ⟨h, hpipe⟩
    rw [← reads_escapePipes, escapePipes_of_notMem hpipe] at h
    exact h

end Cells

/-! ## Rows -/

/-- A line with these cells. -/
def rowText (cells : List (List Char)) : List Char :=
  '|' :: cells.flatMap fun cell => ' ' :: (cell ++ [' ', '|'])

section Rows

variable {texts cells : List (List Char)}

/-- What a line with these cells is cut into. -/
def pieces (texts : List (List Char)) : List (List Char) :=
  texts.flatMap fun text => (splitCells (text ++ [' '])).modifyHead (' ' :: ·)

theorem splitCells_rowText (texts : List (List Char)) :
    splitCells (rowText texts) = [] :: (pieces texts ++ [[]]) := by
  unfold rowText pieces
  rw [splitCells_pipe]
  refine congrArg _ ?_
  induction texts with
  | nil => rfl
  | cons text texts ih =>
    have hcell :
        ' ' :: (text ++ [' ', '|']) ++ texts.flatMap (fun cell => ' ' :: (cell ++ [' ', '|']))
        = ' ' :: (text ++ ' ' :: '|' :: texts.flatMap fun cell => ' ' :: (cell ++ [' ', '|'])) := by
      simp
    rw [List.flatMap_cons, List.flatMap_cons, hcell, splitCells_cons (by decide) (by simp),
      splitCells_append, ih]
    obtain ⟨x, rest, hx⟩ := List.exists_cons_of_ne_nil (splitCells_ne_nil (text ++ [' ']))
    rw [hx]
    simp

theorem decodeRow_rowText (texts : List (List Char)) :
    decodeRow (rowText texts) = (pieces texts).mapM trimCell := by
  unfold decodeRow
  rw [splitCells_rowText]
  simp

theorem trimCell_eq_some {x cell : List Char} :
    trimCell (' ' :: x) = some cell ↔ x = cell ++ [' '] := by
  have hdef : trimCell (' ' :: x) = if x.getLast? = some ' ' then some x.dropLast else none := rfl
  rw [hdef]
  constructor
  · intro h
    split_ifs at h with hlast
    obtain ⟨y, rfl⟩ := List.getLast?_eq_some_iff.1 hlast
    rw [List.dropLast_concat, Option.some.injEq] at h
    rw [h]
  · rintro rfl
    simp

theorem length_le_pieces (texts : List (List Char)) : texts.length ≤ (pieces texts).length := by
  unfold pieces
  induction texts with
  | nil => simp
  | cons text texts ih =>
    have hpos := List.length_pos_of_ne_nil (splitCells_ne_nil (text ++ [' ']))
    rw [List.flatMap_cons, List.length_append, List.length_modifyHead, List.length_cons]
    omega

/-- The cells of a line are read back if and only if each of them is. -/
theorem decodeRow_iff (hlength : texts.length = cells.length) :
    decodeRow (rowText texts) = some cells ↔ List.Forall₂ Reads texts cells := by
  rw [decodeRow_rowText, mapM_eq_some]
  induction texts generalizing cells with
  | nil =>
    obtain rfl := List.eq_nil_of_length_eq_zero hlength.symm
    simp [pieces]
  | cons text texts ih =>
    obtain ⟨cell, cells, rfl⟩ := List.exists_cons_of_length_eq_add_one hlength.symm
    have hlength' : texts.length = cells.length := by simpa using hlength
    have hsplit : pieces (text :: texts)
        = (splitCells (text ++ [' '])).modifyHead (' ' :: ·) ++ pieces texts := List.flatMap_cons
    obtain ⟨x, rest, hx⟩ := List.exists_cons_of_ne_nil (splitCells_ne_nil (text ++ [' ']))
    rw [hsplit, hx, List.modifyHead_cons, List.cons_append, List.forall₂_cons, List.forall₂_cons,
      trimCell_eq_some]
    unfold Reads
    rw [hx, List.cons.injEq]
    constructor
    · rintro ⟨rfl, hall⟩
      have hrest : rest = [] := by
        have heq := hall.length_eq
        have hle := length_le_pieces texts
        rw [List.length_append] at heq
        exact List.eq_nil_of_length_eq_zero (by omega)
      subst hrest
      exact ⟨⟨rfl, rfl⟩, (ih hlength').1 hall⟩
    · rintro ⟨⟨rfl, rfl⟩, hall⟩
      exact ⟨rfl, (ih hlength').2 hall⟩

end Rows

/-! ## Tables -/

section Tables

variable {lines : List (List Char)}

theorem length_splitOnP (p : Char → Bool) (text : List Char) :
    (text.splitOnP p).length = text.countP p + 1 := by
  induction text with
  | nil => simp
  | cons c text ih =>
    rw [List.splitOnP_cons_eq_if_modifyHead, List.countP_cons]
    split_ifs with hc
    · rw [List.length_cons, ih]
    · rw [List.length_modifyHead, ih]

theorem splitOnP_lines (hne : lines ≠ []) (h : ∀ line ∈ lines, ∀ c ∈ line, isLineBreak c = false) :
    (['\n'].intercalate lines).splitOnP isLineBreak = lines := by
  induction lines with
  | nil => exact absurd rfl hne
  | cons line lines ih =>
    have hline := h line (by simp)
    rcases eq_or_ne lines [] with rfl | hne'
    · rw [List.intercalate_singleton, List.splitOnP_eq_singleton hline]
    · rw [List.intercalate_cons_of_ne_nil hne', List.append_assoc, List.singleton_append,
        List.splitOnP_append_cons_of_forall_mem hline '\n' rfl,
        ih hne' fun l hl => h l (by simp [hl])]

/-- A line break inside a line makes one line more. -/
theorem length_lines (hne : lines ≠ []) : ((['\n'].intercalate lines).splitOnP isLineBreak).length
    = lines.length + (lines.map (List.countP isLineBreak)).sum := by
  rw [length_splitOnP]
  induction lines with
  | nil => exact absurd rfl hne
  | cons line lines ih =>
    rcases eq_or_ne lines [] with rfl | hne'
    · simp
      omega
    · have hnewline : isLineBreak '\n' = true := rfl
      rw [List.intercalate_cons_of_ne_nil hne']
      simp only [List.countP_append, List.countP_singleton, hnewline, if_true, List.map_cons,
        List.sum_cons, List.length_cons]
      have hrest := ih hne'
      omega

/-- A table is read back if and only if no line break is inside a line of it, and its heading line
and the lines of its body are. -/
theorem decodeTable_iff {first second : List Char} {body : List (List Char)}
    {headings : List (List Char)} {cells : List (List (List Char))}
    (hlength : body.length = cells.length) :
    decodeTable (['\n'].intercalate (first :: second :: body)) = some (headings, cells) ↔
      (∀ line ∈ first :: second :: body, ∀ c ∈ line, isLineBreak c = false) ∧
      decodeRow first = some headings ∧
      List.Forall₂ (fun line row => decodeRow line = some row) body cells := by
  have hdecode : ∀ {first second : List Char} {body : List (List Char)} {text : List Char},
      text.splitOnP isLineBreak = first :: second :: body →
      (decodeTable text = some (headings, cells) ↔ decodeRow first = some headings ∧
        List.Forall₂ (fun line row => decodeRow line = some row) body cells) := by
    intro first second body text hsplit
    unfold decodeTable
    rw [hsplit, ← mapM_eq_some]
    simp [Option.bind_eq_some_iff]
  by_cases hbreak : ∀ line ∈ first :: second :: body, ∀ c ∈ line, isLineBreak c = false
  · rw [hdecode (splitOnP_lines (by simp) hbreak)]
    exact (and_iff_right hbreak).symm
  · refine iff_of_false (fun h => hbreak ?_) fun h => hbreak h.1
    have hlines := @length_lines (first :: second :: body) (by simp)
    rcases hsplit : (['\n'].intercalate (first :: second :: body)).splitOnP isLineBreak with
      _ | ⟨first', _ | ⟨second', body'⟩⟩
    · rw [hsplit] at hlines
      simp only [List.length_cons, List.length_nil] at hlines
      omega
    · rw [hsplit] at hlines
      simp only [List.length_cons, List.length_nil] at hlines
      omega
    · have hbody := ((hdecode hsplit).1 h).2.length_eq
      rw [hsplit] at hlines
      simp only [List.length_cons] at hlines
      have hsum : ((first :: second :: body).map (List.countP isLineBreak)).sum = 0 := by omega
      intro line hline c hc
      have hcount : line.countP isLineBreak = 0 :=
        List.sum_eq_zero_iff.1 hsum _ (List.mem_map_of_mem hline)
      simpa using List.countP_eq_zero.1 hcount c hc

end Tables

end OfbBench.Markdown
