import Mathlib

/-!
# Dictionaries, sorting and medians

Dictionaries that keep the order in which their keys were first written (`Dict`), with the folds
programs build them by: appending to the list of a key (`Dict.groups`), writing the value of a key
(`Dict.lasts`) and writing into a dictionary of dictionaries (`Dict.nested`). Sorting by a
comparison that is not defined on every pair (`sorted`), which fails when it meets such a pair. The
median of a list of numbers.

Sorting and the median do not depend on the order of their argument.
-/

namespace OfbBench

/-- A dictionary, its entries in the order in which their keys were first written. -/
structure Dict (κ ν : Type) where
  entries : List (κ × ν)
  nodup : (entries.map Prod.fst).Nodup

namespace Dict

variable {κ ν α β : Type} [DecidableEq κ]

/-- The entries with the value of `k` replaced by `f` of it, or added at the end. -/
def alterEntries (k : κ) (f : Option ν → ν) : List (κ × ν) → List (κ × ν)
  | [] => [(k, f none)]
  | (k', v) :: rest => if k' = k then (k', f (some v)) :: rest else (k', v) :: alterEntries k f rest

theorem mem_keys_alterEntries {k k' : κ} {f : Option ν → ν} {entries : List (κ × ν)} :
    k' ∈ (alterEntries k f entries).map Prod.fst ↔ k' = k ∨ k' ∈ entries.map Prod.fst := by
  induction entries with
  | nil => simp [alterEntries]
  | cons e rest ih =>
    obtain ⟨k₁, v⟩ := e
    unfold alterEntries
    split_ifs with h
    · subst h
      simp
    · simp only [List.map_cons, List.mem_cons, ih]
      tauto

theorem nodup_alterEntries {k : κ} {f : Option ν → ν} {entries : List (κ × ν)}
    (h : (entries.map Prod.fst).Nodup) : ((alterEntries k f entries).map Prod.fst).Nodup := by
  induction entries with
  | nil => simp [alterEntries]
  | cons e rest ih =>
    obtain ⟨k₁, v⟩ := e
    rw [List.map_cons, List.nodup_cons] at h
    unfold alterEntries
    split_ifs with hk
    · rw [List.map_cons, List.nodup_cons]
      exact h
    · rw [List.map_cons, List.nodup_cons, mem_keys_alterEntries]
      refine ⟨?_, ih h.2⟩
      rintro (he | he)
      · exact hk he
      · exact h.1 he

def empty : Dict κ ν := ⟨[], List.nodup_nil⟩

/-- `d[k] = f (d.get (k))`. -/
def alter (d : Dict κ ν) (k : κ) (f : Option ν → ν) : Dict κ ν :=
  ⟨alterEntries k f d.entries, nodup_alterEntries d.nodup⟩

def keys (d : Dict κ ν) : List κ := d.entries.map Prod.fst

omit [DecidableEq κ] in
theorem nodup_keys (d : Dict κ ν) : d.keys.Nodup := d.nodup

def getEntry (k : κ) : List (κ × ν) → Option ν
  | [] => none
  | (k', v) :: rest => if k' = k then some v else getEntry k rest

def get? (d : Dict κ ν) (k : κ) : Option ν := getEntry k d.entries

@[simp] theorem get?_empty (k : κ) : (empty : Dict κ ν).get? k = none := rfl

theorem get?_getD_empty {d? : Option (Dict κ ν)} {k : κ} :
    (d?.getD empty).get? k = d?.bind (·.get? k) := by
  rcases d? with _ | d
  · rfl
  · rfl

theorem getEntry_alterEntries {k k' : κ} {f : Option ν → ν} {entries : List (κ × ν)} :
    getEntry k' (alterEntries k f entries)
      = if k' = k then some (f (getEntry k entries)) else getEntry k' entries := by
  induction entries with
  | nil => simp only [alterEntries, getEntry, eq_comm]
  | cons e rest ih =>
    obtain ⟨k₁, v⟩ := e
    unfold alterEntries
    split_ifs with h₁ h₂ h₂
    · simp [getEntry, h₁, h₂]
    · simp [getEntry, h₁, Ne.symm h₂]
    · rw [getEntry, ih, if_pos h₂, h₂, if_neg h₁, getEntry, if_neg h₁]
    · rw [getEntry, ih, if_neg h₂, getEntry]

theorem get?_alter {d : Dict κ ν} {k k' : κ} {f : Option ν → ν} :
    (d.alter k f).get? k' = if k' = k then some (f (d.get? k)) else d.get? k' :=
  getEntry_alterEntries

theorem mem_keys_alter {d : Dict κ ν} {k k' : κ} {f : Option ν → ν} :
    k' ∈ (d.alter k f).keys ↔ k' = k ∨ k' ∈ d.keys :=
  mem_keys_alterEntries

theorem mem_keys_iff {d : Dict κ ν} {k : κ} : k ∈ d.keys ↔ ∃ v, d.get? k = some v := by
  obtain ⟨entries, hd⟩ := d
  change k ∈ entries.map Prod.fst ↔ ∃ v, getEntry k entries = some v
  clear hd
  induction entries with
  | nil => simp [getEntry]
  | cons e rest ih =>
    obtain ⟨k₁, v⟩ := e
    rw [List.map_cons, List.mem_cons, ih, getEntry]
    split_ifs with h
    · exact ⟨fun _ => ⟨v, rfl⟩, fun _ => .inl h.symm⟩
    · exact ⟨fun hk => hk.resolve_left fun he => h he.symm, .inr⟩

/-! ## Grouping -/

section Groups

variable (f : α → κ) (g : α → β)

/-- `for x in xs: d[f(x)].append(g(x))`, from the dictionary `d`. -/
def groupsFrom (d : Dict κ (List β)) (xs : List α) : Dict κ (List β) :=
  xs.foldl (fun d x => d.alter (f x) fun group => group.getD [] ++ [g x]) d

def groups (xs : List α) : Dict κ (List β) := groupsFrom f g empty xs

theorem get?_groupsFrom (d : Dict κ (List β)) (xs : List α) (k : κ) :
    (groupsFrom f g d xs).get? k = if (xs.filter (f · = k)) = [] then d.get? k
      else some ((d.get? k).getD [] ++ (xs.filter (f · = k)).map g) := by
  induction xs generalizing d with
  | nil => rfl
  | cons x xs ih =>
    change (groupsFrom f g (d.alter (f x) _) xs).get? k = _
    rw [ih, get?_alter]
    by_cases hk : f x = k
    · subst hk
      simp only [if_true, decide_true, List.filter_cons_of_pos, reduceCtorEq, if_false,
        List.map_cons, Option.getD_some]
      split_ifs with hnil
      · rw [hnil, List.map_nil]
      · rw [List.append_assoc, List.singleton_append]
    · rw [List.filter_cons_of_neg (by simpa using hk), if_neg (Ne.symm hk)]

/-- The group of a key holds what was appended under it, in order; a key nothing was appended
under has none. -/
theorem get?_groups (xs : List α) (k : κ) :
    (groups f g xs).get? k = if (xs.filter (f · = k)) = [] then none
      else some ((xs.filter (f · = k)).map g) := by
  unfold groups
  rw [get?_groupsFrom, get?_empty, Option.getD_none, List.nil_append]

theorem mem_keys_groups {xs : List α} {k : κ} : k ∈ (groups f g xs).keys ↔ ∃ x ∈ xs, f x = k := by
  rw [mem_keys_iff, get?_groups]
  constructor
  · rintro ⟨v, hv⟩
    split_ifs at hv with hnil
    obtain ⟨x, hx⟩ := List.exists_mem_of_ne_nil _ hnil
    rw [List.mem_filter, decide_eq_true_eq] at hx
    exact ⟨x, hx⟩
  · rintro ⟨x, hx, hk⟩
    have hmem : x ∈ xs.filter (f · = k) := List.mem_filter.2 ⟨hx, decide_eq_true hk⟩
    rw [if_neg (List.ne_nil_of_mem hmem)]
    exact ⟨_, rfl⟩

/-- `for x in xs: d[f(x)] = g(x)`, from the dictionary `d`. -/
def lastsFrom (d : Dict κ β) (xs : List α) : Dict κ β :=
  xs.foldl (fun d x => d.alter (f x) fun _ => g x) d

def lasts (xs : List α) : Dict κ β := lastsFrom f g empty xs

theorem get?_lastsFrom (d : Dict κ β) (xs : List α) (k : κ) :
    (lastsFrom f g d xs).get? k = ((xs.filter (f · = k)).getLast?.map g).or (d.get? k) := by
  induction xs generalizing d with
  | nil => rfl
  | cons x xs ih =>
    change (lastsFrom f g (d.alter (f x) _) xs).get? k = _
    rw [ih, get?_alter]
    by_cases hk : f x = k
    · subst hk
      rw [if_pos rfl, List.filter_cons_of_pos (by simp), List.getLast?_cons]
      rcases (xs.filter (f · = f x)).getLast? with _ | y
      · rfl
      · rfl
    · rw [List.filter_cons_of_neg (by simpa using hk), if_neg (Ne.symm hk)]

/-- The value of a key is the last one written under it. -/
theorem get?_lasts (xs : List α) (k : κ) :
    (lasts f g xs).get? k = (xs.filter (f · = k)).getLast?.map g := by
  unfold lasts
  rw [get?_lastsFrom, get?_empty, Option.or_none]

end Groups

/-! ## Nesting -/

section Nested

variable {ι : Type} [DecidableEq ι] (f : ν → β)

/-- `for ((i, k), v) in entries: d[i][k] = f(v)`, from the dictionary `d`. -/
def nestedFrom (d : Dict ι (Dict κ β)) (entries : List ((ι × κ) × ν)) : Dict ι (Dict κ β) :=
  entries.foldl (fun d entry => d.alter entry.1.1 fun inner =>
    (inner.getD .empty).alter entry.1.2 fun _ => f entry.2) d

def nested (entries : List ((ι × κ) × ν)) : Dict ι (Dict κ β) := nestedFrom f empty entries

theorem getEntry_eq_none {k : κ} {entries : List (κ × ν)} (h : k ∉ entries.map Prod.fst) :
    getEntry k entries = none := by
  induction entries with
  | nil => rfl
  | cons e rest ih =>
    obtain ⟨k', v⟩ := e
    rw [List.map_cons, List.mem_cons, not_or] at h
    rw [getEntry, if_neg (Ne.symm h.1), ih h.2]

theorem get?_nestedFrom {d : Dict ι (Dict κ β)} {entries : List ((ι × κ) × ν)}
    (h : (entries.map Prod.fst).Nodup) (i : ι) (k : κ) :
    ((nestedFrom f d entries).get? i).bind (·.get? k)
      = ((getEntry (i, k) entries).map f).or ((d.get? i).bind (·.get? k)) := by
  induction entries generalizing d with
  | nil => rfl
  | cons e rest ih =>
    obtain ⟨⟨i', k'⟩, v⟩ := e
    rw [List.map_cons, List.nodup_cons] at h
    change ((nestedFrom f (d.alter i' _) rest).get? i).bind _ = _
    rw [ih h.2, get?_alter, getEntry]
    by_cases hi : i = i'
    · subst hi
      rw [if_pos rfl, Option.bind_some, get?_alter]
      by_cases hk : k = k'
      · subst hk
        rw [if_pos rfl, if_pos rfl, getEntry_eq_none h.1]
        rfl
      · rw [if_neg hk, if_neg (by simp [Ne.symm hk])]
        rcases d.get? i with _ | inner
        · rfl
        · rfl
    · rw [if_neg hi, if_neg (by simp [Ne.symm hi])]

/-- The value of a pair of keys is the image of its entry. -/
theorem get?_nested (d : Dict (ι × κ) ν) (i : ι) (k : κ) :
    ((nested f d.entries).get? i).bind (·.get? k) = (d.get? (i, k)).map f := by
  unfold nested
  rw [get?_nestedFrom f d.nodup, get?_empty, Option.bind_none, Option.or_none]
  rfl

theorem mem_keys_nestedFrom {d : Dict ι (Dict κ β)} {entries : List ((ι × κ) × ν)} {i : ι} :
    i ∈ (nestedFrom f d entries).keys ↔ (∃ entry ∈ entries, entry.1.1 = i) ∨ i ∈ d.keys := by
  induction entries generalizing d with
  | nil => simp [nestedFrom]
  | cons e rest ih =>
    change i ∈ (nestedFrom f (d.alter e.1.1 _) rest).keys ↔ _
    rw [ih, mem_keys_alter, List.exists_mem_cons_iff, @eq_comm _ i, or_left_comm, or_assoc]

theorem mem_keys_nested {d : Dict (ι × κ) ν} {i : ι} :
    i ∈ (nested f d.entries).keys ↔ ∃ k, (i, k) ∈ d.keys := by
  unfold nested
  rw [mem_keys_nestedFrom]
  simp [keys, empty]

end Nested

end Dict

/-! ## Sorting -/

section Sorted

variable {α : Type} (comparable : α → α → Bool) (le : α → α → Prop) [DecidableRel le]

/-- `xs` in the order of `le`, or nothing if it holds two elements that cannot be compared. -/
def sorted (xs : List α) : Option (List α) :=
  if xs.Pairwise (comparable · · = true) then some (xs.insertionSort le) else none

variable {comparable le} {xs ys : List α}

theorem sorted_eq_some : sorted comparable le xs = some ys ↔
    xs.Pairwise (comparable · · = true) ∧ ys = xs.insertionSort le := by
  unfold sorted
  split_ifs with h
  · rw [Option.some.injEq, eq_comm, iff_and_self]
    exact fun _ => h
  · exact ⟨fun hs => by simp at hs, fun hs => absurd hs.1 h⟩

/-- The order of the argument does not matter if no two of its elements tie. -/
theorem insertionSort_perm_of [Std.Total le] [IsTrans α le]
    (hanti : ∀ a ∈ xs, ∀ b ∈ xs, le a b → le b a → a = b) (h : xs.Perm ys) :
    xs.insertionSort le = ys.insertionSort le := by
  have hperm : (xs.insertionSort le).Perm (ys.insertionSort le) :=
    (List.perm_insertionSort le xs).trans (h.trans (List.perm_insertionSort le ys).symm)
  refine hperm.eq_of_pairwise (fun a b ha hb => ?_) (List.pairwise_insertionSort le xs)
    (List.pairwise_insertionSort le ys)
  rw [List.mem_insertionSort] at ha hb
  exact hanti a ha b (h.mem_iff.2 hb)

theorem insertionSort_perm [Std.Total le] [IsTrans α le] [Std.Antisymm le] (h : xs.Perm ys) :
    xs.insertionSort le = ys.insertionSort le :=
  insertionSort_perm_of (fun _ _ _ _ => antisymm) h

/-- Two elements that tie stay next to each other, in the order they were in. -/
theorem insertionSort_tie [IsTrans α le] {a b : α} (hab : le a b) (hba : le b a) :
    ∃ before after, (a :: b :: xs).insertionSort le = before ++ a :: b :: after ∧
      (b :: a :: xs).insertionSort le = before ++ b :: a :: after := by
  have hiff : ∀ c, le a c ↔ le b c := fun c =>
    ⟨fun h => trans_of le hba h, fun h => trans_of le hab h⟩
  have hinsert : ∀ {c d : α}, le c d → (∀ x, le c x ↔ le d x) →
      ((xs.insertionSort le).orderedInsert le d).orderedInsert le c
        = (xs.insertionSort le).takeWhile (fun x => ¬ le d x)
          ++ c :: d :: (xs.insertionSort le).dropWhile (fun x => ¬ le d x) := by
    intro c d hcd hcd'
    rw [List.orderedInsert_eq_take_drop _ d, List.orderedInsert_eq_take_drop]
    have hpos : ∀ x ∈ (xs.insertionSort le).takeWhile (fun x => ¬ le d x), ¬ le c x := by
      intro x hx
      have hnot := List.mem_takeWhile_imp hx
      rw [decide_eq_true_eq] at hnot
      exact fun h => hnot ((hcd' x).1 h)
    rw [List.takeWhile_append_of_pos (by simpa using hpos),
      List.dropWhile_append_of_pos (by simpa using hpos),
      List.takeWhile_cons_of_neg (by simpa using hcd),
      List.dropWhile_cons_of_neg (by simpa using hcd),
      List.append_nil]
  refine ⟨_, _, hinsert hab hiff, ?_⟩
  rw [List.insertionSort_cons, List.insertionSort_cons, hinsert hba fun c => (hiff c).symm]
  simp only [hiff]

theorem sorted_perm [Std.Total le] [IsTrans α le] [Std.Antisymm le]
    (hsymm : ∀ {a b}, comparable a b = true → comparable b a = true) (h : xs.Perm ys) :
    sorted comparable le xs = sorted comparable le ys := by
  have hp : xs.Pairwise (comparable · · = true) ↔ ys.Pairwise (comparable · · = true) :=
    h.pairwise_iff hsymm
  unfold sorted
  rw [insertionSort_perm h]
  simp only [hp]

end Sorted

/-! ## Medians -/

/-- `statistics.median`: the middle element of the sorted list, or the mean of the two in the
middle; the list is not empty. -/
def median (xs : List ℚ) : ℚ :=
  let data := xs.insertionSort (· ≤ ·)
  if data.length % 2 = 1 then data.getD (data.length / 2) 0
  else (data.getD (data.length / 2 - 1) 0 + data.getD (data.length / 2) 0) / 2

theorem median_perm {xs ys : List ℚ} (h : xs.Perm ys) : median xs = median ys := by
  unfold median
  rw [insertionSort_perm h]

end OfbBench
