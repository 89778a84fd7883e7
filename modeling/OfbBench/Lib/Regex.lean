import Mathlib

/-!
# Backtracking regular expressions

Patterns as a backtracking matcher runs them: `run` lists every way a pattern matches at the start
of a text, in the order in which the matcher tries them, each with the groups it captured and the
text it left. The match a search at the start of a text finds is the first of them.

What a pattern can match is read off its members (`mem_run_seq` and the lemmas after it). For the
first one, a greedy repetition before the rest of a pattern takes the longest text after which the
rest can match (`first_greedy`).
-/

namespace OfbBench

/-- A pattern. The only things repeated are classes of characters, greedily or lazily. -/
inductive Regex
  | empty
  | one (p : Char → Bool)
  | many (greedy : Bool) (p : Char → Bool)
  | seq (r s : Regex)
  | alt (r s : Regex)
  | capture (name : String) (r : Regex)
  | atEnd

namespace Regex

/-- The texts of the groups, in the order in which the groups start. -/
abbrev Captures := List (String × List Char)

/-- The rests of a text after the characters of the class at its start, each time one less or, if
lazy, one more. -/
def repeats (greedy : Bool) (p : Char → Bool) : List Char → List (List Char)
  | [] => [[]]
  | c :: s =>
    if p c then
      if greedy then repeats greedy p s ++ [c :: s] else (c :: s) :: repeats greedy p s
    else [c :: s]

/-- The matches of a pattern at the start of a text, in the order in which they are tried. -/
def run : Regex → List Char → List (Captures × List Char)
  | empty, s => [([], s)]
  | one _, [] => []
  | one p, c :: s => if p c then [([], s)] else []
  | many greedy p, s => (repeats greedy p s).map fun rest => ([], rest)
  | seq a b, s => (a.run s).flatMap fun m => (b.run m.2).map fun n => (m.1 ++ n.1, n.2)
  | alt a b, s => a.run s ++ b.run s
  | capture name a, s =>
    (a.run s).map fun m => ((name, s.take (s.length - m.2.length)) :: m.1, m.2)
  | atEnd, s => if s = [] ∨ s = ['\n'] then [([], s)] else []

/-- What a pattern anchored at the start of a text matches there. -/
def first (r : Regex) (s : List Char) : Option Captures := (r.run s).head?.map Prod.fst

/-- `p+`. -/
def plus (p : Char → Bool) : Regex := seq (one p) (many true p)

/-- `p+?`. -/
def plusLazy (p : Char → Bool) : Regex := seq (one p) (many false p)

/-- `p*`. -/
def star (p : Char → Bool) : Regex := many true p

/-- `r?`. -/
def opt (r : Regex) : Regex := alt r empty

/-- The characters of a text, one after the other. -/
def lit : List Char → Regex
  | [] => empty
  | c :: cs => seq (one fun d => d = c) (lit cs)

/-- The texts of the groups of this name. -/
def group (name : String) (captures : Captures) : Option (List Char) := captures.lookup name

section Members

variable {a b k : Regex} {s y : List Char} {m : Captures × List Char} {p : Char → Bool}
  {greedy : Bool} {name : String} {cs : List Char}

theorem mem_run_seq : m ∈ (seq a b).run s ↔
    ∃ n ∈ a.run s, ∃ n' ∈ b.run n.2, m = (n.1 ++ n'.1, n'.2) := by
  simp only [run, List.mem_flatMap, List.mem_map, eq_comm]

theorem mem_run_one : m ∈ (one p).run s ↔ ∃ c, s = c :: m.2 ∧ p c ∧ m.1 = [] := by
  obtain ⟨m₁, m₂⟩ := m
  cases s with
  | nil => simp [run]
  | cons c s =>
    unfold run
    split_ifs with hc
    · simp only [List.mem_singleton, Prod.mk.injEq, List.cons.injEq]
      constructor
      · rintro ⟨rfl, rfl⟩
        exact ⟨c, ⟨rfl, rfl⟩, hc, rfl⟩
      · rintro ⟨_, ⟨rfl, rfl⟩, -, rfl⟩
        exact ⟨rfl, rfl⟩
    · simp only [List.not_mem_nil, false_iff]
      rintro ⟨_, h, hc', -⟩
      rw [← (List.cons.inj h).1] at hc'
      exact hc hc'

theorem mem_repeats : y ∈ repeats greedy p s ↔ ∃ x, s = x ++ y ∧ ∀ c ∈ x, p c := by
  induction s with
  | nil =>
    simp only [repeats, List.mem_singleton]
    constructor
    · rintro rfl
      exact ⟨[], rfl, by simp⟩
    · rintro ⟨x, h, -⟩
      exact (List.append_eq_nil_iff.1 h.symm).2
  | cons c s ih =>
    have hcons : (∃ x, c :: s = x ++ y ∧ ∀ d ∈ x, p d)
        ↔ y = c :: s ∨ (p c ∧ y ∈ repeats greedy p s) := by
      rw [ih]
      constructor
      · rintro ⟨_ | ⟨d, x⟩, h, hx⟩
        · exact .inl h.symm
        · obtain ⟨rfl, rfl⟩ := List.cons.inj h
          exact .inr ⟨hx c (by simp), x, rfl, fun d hd => hx d (by simp [hd])⟩
      · rintro (rfl | ⟨hc, x, rfl, hx⟩)
        · exact ⟨[], rfl, by simp⟩
        · exact ⟨c :: x, rfl, by simpa [hc] using hx⟩
    rw [hcons, repeats]
    split_ifs with hc hg
    · simp [hc, or_comm]
    · simp [hc]
    · simp [hc]

theorem mem_run_many : m ∈ (many greedy p).run s ↔
    ∃ x, s = x ++ m.2 ∧ (∀ c ∈ x, p c) ∧ m.1 = [] := by
  obtain ⟨m₁, m₂⟩ := m
  simp only [run, List.mem_map, mem_repeats, Prod.mk.injEq]
  constructor
  · rintro ⟨y, ⟨x, rfl, hx⟩, rfl, rfl⟩
    exact ⟨x, rfl, hx, rfl⟩
  · rintro ⟨x, rfl, hx, rfl⟩
    exact ⟨m₂, ⟨x, rfl, hx⟩, rfl, rfl⟩

/-- A repetition that takes at least one character. -/
theorem mem_run_one_many : m ∈ (seq (one p) (many greedy p)).run s ↔
    ∃ x, s = x ++ m.2 ∧ x ≠ [] ∧ (∀ c ∈ x, p c) ∧ m.1 = [] := by
  obtain ⟨m₁, m₂⟩ := m
  simp only [mem_run_seq, mem_run_one, mem_run_many, Prod.mk.injEq]
  constructor
  · rintro ⟨⟨_, _⟩, ⟨c, rfl, hc, rfl⟩, ⟨_, _⟩, ⟨x, rfl, hx, rfl⟩, rfl, rfl⟩
    exact ⟨c :: x, rfl, by simp, by simpa [hc] using hx, rfl⟩
  · rintro ⟨_ | ⟨c, x⟩, rfl, hne, hx, rfl⟩
    · exact absurd rfl hne
    · exact ⟨([], x ++ m₂), ⟨c, rfl, hx c (by simp), rfl⟩, ([], m₂),
        ⟨x, rfl, fun d hd => hx d (by simp [hd]), rfl⟩, rfl, rfl⟩

theorem mem_run_lit : m ∈ (lit cs).run s ↔ s = cs ++ m.2 ∧ m.1 = [] := by
  obtain ⟨m₁, m₂⟩ := m
  induction cs generalizing s m₁ m₂ with
  | nil =>
    simp only [lit, run, List.mem_singleton, Prod.mk.injEq, List.nil_append]
    exact ⟨fun ⟨h1, h2⟩ => ⟨h2.symm, h1⟩, fun ⟨h1, h2⟩ => ⟨h2, h1.symm⟩⟩
  | cons c cs ih =>
    simp only [lit, mem_run_seq, mem_run_one, decide_eq_true_eq]
    constructor
    · rintro ⟨⟨_, _⟩, ⟨d, rfl, rfl, rfl⟩, ⟨n₁, n₂⟩, hn, h⟩
      obtain ⟨rfl, rfl⟩ := (ih _ _).1 hn
      obtain ⟨rfl, rfl⟩ := Prod.mk.inj h
      exact ⟨rfl, rfl⟩
    · rintro ⟨rfl, rfl⟩
      exact ⟨([], cs ++ m₂), ⟨c, rfl, rfl, rfl⟩, ([], m₂), (ih _ _).2 ⟨rfl, rfl⟩, rfl⟩

theorem mem_run_atEnd : m ∈ atEnd.run s ↔ (s = [] ∨ s = ['\n']) ∧ m = ([], s) := by
  by_cases h : s = [] ∨ s = ['\n']
  · rw [run, if_pos h, List.mem_singleton]
    exact (and_iff_right h).symm
  · rw [run, if_neg h]
    simp [h]

/-- A match leaves a suffix of the text. -/
theorem suffix_of_mem_run (h : m ∈ a.run s) : m.2 <:+ s := by
  induction a generalizing s m with
  | empty =>
    rw [run, List.mem_singleton] at h
    rw [h]
  | one p =>
    obtain ⟨c, rfl, -⟩ := mem_run_one.1 h
    exact List.suffix_cons c m.2
  | many greedy p =>
    obtain ⟨x, hs, -⟩ := mem_run_many.1 h
    exact ⟨x, hs.symm⟩
  | seq a b iha ihb =>
    obtain ⟨n, hn, n', hn', rfl⟩ := mem_run_seq.1 h
    exact (ihb hn').trans (iha hn)
  | alt a b iha ihb =>
    rcases List.mem_append.1 h with h | h
    · exact iha h
    · exact ihb h
  | capture name a ih =>
    obtain ⟨n, hn, rfl⟩ := List.mem_map.1 h
    have hsuffix := ih hn
    exact hsuffix
  | atEnd =>
    obtain ⟨-, rfl⟩ := mem_run_atEnd.1 h
    exact List.suffix_refl s

theorem mem_run_capture : m ∈ (capture name a).run s ↔
    ∃ x, ∃ n ∈ a.run s, s = x ++ n.2 ∧ m = ((name, x) :: n.1, n.2) := by
  simp only [run, List.mem_map]
  constructor
  · rintro ⟨n, hn, rfl⟩
    obtain ⟨x, rfl⟩ := suffix_of_mem_run hn
    refine ⟨x, n, hn, rfl, ?_⟩
    rw [List.length_append, Nat.add_sub_cancel, List.take_left]
  · rintro ⟨x, n, hn, rfl, rfl⟩
    refine ⟨n, hn, ?_⟩
    rw [List.length_append, Nat.add_sub_cancel, List.take_left]

/-- A text before the rest of a pattern. -/
theorem mem_run_lit_seq : m ∈ (seq (lit cs) k).run s ↔ ∃ y, s = cs ++ y ∧ m ∈ k.run y := by
  rw [mem_run_seq]
  constructor
  · rintro ⟨⟨_, y⟩, hn, n', hn', rfl⟩
    obtain ⟨rfl, rfl⟩ := mem_run_lit.1 hn
    exact ⟨y, rfl, hn'⟩
  · rintro ⟨y, rfl, hm⟩
    exact ⟨([], y), mem_run_lit.2 ⟨rfl, rfl⟩, m, hm, rfl⟩

/-- A captured repetition before the rest of a pattern. -/
theorem mem_run_plus_seq : m ∈ (seq (capture name (seq (one p) (many greedy p))) k).run s ↔
    ∃ x y n, s = x ++ y ∧ x ≠ [] ∧ (∀ c ∈ x, p c) ∧ n ∈ k.run y
      ∧ m = ((name, x) :: n.1, n.2) := by
  rw [mem_run_seq]
  constructor
  · rintro ⟨_, hcapture, n', hn', rfl⟩
    obtain ⟨x, ⟨_, y⟩, hn, rfl, rfl⟩ := mem_run_capture.1 hcapture
    obtain ⟨x', heq, hne, hx, rfl⟩ := mem_run_one_many.1 hn
    obtain rfl := List.append_cancel_right heq
    exact ⟨x, y, n', rfl, hne, hx, hn', rfl⟩
  · rintro ⟨x, y, n, rfl, hne, hx, hn, rfl⟩
    have hmany : ([], y) ∈ (seq (one p) (many greedy p)).run (x ++ y) :=
      mem_run_one_many.2 ⟨x, rfl, hne, hx, rfl⟩
    exact ⟨([(name, x)], y), mem_run_capture.2 ⟨x, ([], y), hmany, rfl, rfl⟩, n, hn, rfl⟩

end Members

theorem exists_of_first {r : Regex} {s : List Char} {captures : Captures}
    (h : r.first s = some captures) : ∃ rest, (captures, rest) ∈ r.run s := by
  obtain ⟨⟨_, rest⟩, hm, rfl⟩ := Option.map_eq_some_iff.1 h
  exact ⟨rest, List.mem_of_mem_head? hm⟩

/-! ## The first match -/

/-- The first match of a pattern at the start of a text. -/
def First (r : Regex) (s : List Char) (m : Captures × List Char) : Prop :=
  (r.run s).head? = some m

section First

variable {a k : Regex} {s x y cs : List Char} {m : Captures × List Char} {p : Char → Bool}
  {name : String}

theorem First.first (h : First a s m) : a.first s = some m.1 := by
  unfold Regex.first
  rw [h]
  rfl

/-- The first match of a list of alternatives that starts with those that fail. -/
theorem head?_flatMap {α β : Type} {before after : List α} {x : α} {f : α → List β} {z : β}
    (hb : ∀ w ∈ before, f w = []) (hx : (f x).head? = some z) :
    ((before ++ x :: after).flatMap f).head? = some z := by
  rw [List.flatMap_append, List.flatMap_eq_nil_iff.2 hb, List.nil_append, List.flatMap_cons,
    List.head?_append, hx]
  rfl

/-- A greedy repetition tries the longer texts before `x`. -/
theorem repeats_split (hx : ∀ c ∈ x, p c) : ∃ longer shorter,
    repeats true p (x ++ y) = longer ++ y :: shorter
      ∧ ∀ y' ∈ longer, ∃ w, w ≠ [] ∧ y = w ++ y' ∧ ∀ c ∈ w, p c := by
  induction x with
  | nil =>
    cases y with
    | nil => exact ⟨[], [], rfl, by simp⟩
    | cons c y =>
      rw [List.nil_append, repeats]
      by_cases hc : p c
      · rw [if_pos hc, if_pos rfl]
        refine ⟨repeats true p y, [], rfl, fun y' hy' => ?_⟩
        obtain ⟨w, rfl, hw⟩ := mem_repeats.1 hy'
        exact ⟨c :: w, by simp, rfl, by simpa [hc] using hw⟩
      · rw [if_neg hc]
        exact ⟨[], [], rfl, by simp⟩
  | cons c x ih =>
    obtain ⟨longer, shorter, heq, hlonger⟩ := ih fun d hd => hx d (by simp [hd])
    refine ⟨longer, shorter ++ [c :: (x ++ y)], ?_, hlonger⟩
    rw [List.cons_append, repeats, if_pos (hx c (by simp)), if_pos rfl, heq]
    simp

theorem first_lit (h : First k y m) : First (seq (lit cs) k) (cs ++ y) m := by
  have hlit : (lit cs).run (cs ++ y) = [([], y)] := by
    induction cs with
    | nil => rfl
    | cons c cs ih => simp [lit, run, ih]
  unfold First run
  rw [hlit]
  simp only [List.flatMap_singleton, List.nil_append, Prod.mk.eta, List.map_id']
  exact h

/-- A greedy repetition takes the longest text after which the rest matches. -/
theorem first_greedy (hne : x ≠ []) (hx : ∀ c ∈ x, p c) (hk : First k y m)
    (hlonger : ∀ w y', w ≠ [] → y = w ++ y' → (∀ c ∈ w, p c) → k.run y' = []) :
    First (seq (capture name (plus p)) k) (x ++ y) ((name, x) :: m.1, m.2) := by
  obtain ⟨c, x, rfl⟩ := List.exists_cons_of_ne_nil hne
  have hx' : ∀ d ∈ x, p d := fun d hd => hx d (by simp [hd])
  obtain ⟨longer, shorter, heq, hw⟩ := @repeats_split x y p hx'
  unfold First
  have hrun : (plus p).run (c :: x ++ y) = (longer ++ y :: shorter).map fun rest => ([], rest) := by
    rw [← heq]
    simp [plus, run, hx c (by simp)]
  rw [run, run, hrun, List.map_map, List.flatMap_map]
  refine head?_flatMap (fun y' hy' => ?_) ?_
  · obtain ⟨w, hw0, hyw, hwp⟩ := hw y' hy'
    simp [hlonger w y' hw0 hyw hwp]
  · simp only [Function.comp, List.head?_map, List.length_append, Nat.add_sub_cancel]
    rw [show (k.run y).head? = some m from hk]
    simp

end First

end Regex

end OfbBench
