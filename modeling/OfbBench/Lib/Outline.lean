import Mathlib

/-!
# Outlines

A list under two levels of headings (`Outline`): which headings there are and in which order, and
below them the items they are the keys of. The items below all headings are those of the list, each
as often as it is there (`Outline.perm`).
-/

namespace OfbBench

variable {α κ ν : Type} [DecidableEq κ] [DecidableEq ν]

/-- Grouped by all its keys, a list is there once more. -/
theorem perm_flatMap_filter {f : α → κ} {keys : List κ} (hn : keys.Nodup) {xs : List α}
    (hmem : ∀ x ∈ xs, f x ∈ keys) : (keys.flatMap fun k => xs.filter (f · = k)).Perm xs := by
  induction keys generalizing xs with
  | nil =>
    rw [List.eq_nil_iff_forall_not_mem.2 fun x hx => List.not_mem_nil (hmem x hx)]
    rfl
  | cons k keys ih =>
    rw [List.nodup_cons] at hn
    have hrest : ∀ k' ∈ keys, xs.filter (f · = k')
        = (xs.filter fun x => ¬ f x = k).filter (f · = k') := by
      intro k' hk'
      rw [List.filter_filter]
      refine List.filter_congr fun x _ => ?_
      have : f x = k' → f x ≠ k := fun h h' => hn.1 (by rw [← h', h]; exact hk')
      simpa using this
    have hmem' : ∀ x ∈ xs.filter fun x => ¬ f x = k, f x ∈ keys := by
      intro x hx
      rw [List.mem_filter, decide_eq_true_eq] at hx
      exact (List.mem_cons.1 (hmem x hx.1)).resolve_left hx.2
    rw [List.flatMap_cons, List.flatMap_congr hrest]
    refine ((ih hn.2 hmem').append_left _).trans ?_
    simpa using List.filter_append_perm (f · = k) xs

/-- `xs` under the headings `outer` of its items, and below these under their headings `inner`. -/
structure Outline (outer : α → κ) (inner : α → ν) (before : κ → κ → Prop) (before' : ν → ν → Prop)
    (le : α → α → Prop) (xs : List α) where
  parts : List (κ × List (ν × List α))
  headings : (parts.map Prod.fst).Pairwise before
  mem_headings : ∀ k, k ∈ parts.map Prod.fst ↔ ∃ x ∈ xs, outer x = k
  subheadings : ∀ part ∈ parts, (part.2.map Prod.fst).Pairwise before'
  mem_subheadings : ∀ part ∈ parts, ∀ l,
    l ∈ part.2.map Prod.fst ↔ ∃ x ∈ xs, outer x = part.1 ∧ inner x = l
  items : ∀ part ∈ parts, ∀ group ∈ part.2,
    group.2.Perm (xs.filter fun x => outer x = part.1 ∧ inner x = group.1)
  sorted : ∀ part ∈ parts, ∀ group ∈ part.2, group.2.Pairwise le

namespace Outline

variable {outer : α → κ} {inner : α → ν} {before : κ → κ → Prop} {before' : ν → ν → Prop}
  {le : α → α → Prop} {xs : List α}

theorem parts_ne_nil (outline : Outline outer inner before before' le xs) (h : xs ≠ []) :
    outline.parts ≠ [] := by
  obtain ⟨x, hx⟩ := List.exists_mem_of_ne_nil xs h
  rintro hnil
  have hmem := (outline.mem_headings (outer x)).2 ⟨x, hx, rfl⟩
  simp [hnil] at hmem

/-- No heading stands there without a heading below it. -/
theorem groups_ne_nil (outline : Outline outer inner before before' le xs)
    {part : κ × List (ν × List α)} (hpart : part ∈ outline.parts) : part.2 ≠ [] := by
  obtain ⟨x, hx, hk⟩ := (outline.mem_headings part.1).1 (List.mem_map_of_mem hpart)
  rintro hnil
  have hmem := (outline.mem_subheadings part hpart (inner x)).2 ⟨x, hx, hk, rfl⟩
  simp [hnil] at hmem

theorem items_ne_nil (outline : Outline outer inner before before' le xs)
    {part : κ × List (ν × List α)} (hpart : part ∈ outline.parts) {group : ν × List α}
    (hgroup : group ∈ part.2) : group.2 ≠ [] := by
  obtain ⟨x, hx, hk, hl⟩ :=
    (outline.mem_subheadings part hpart group.1).1 (List.mem_map_of_mem hgroup)
  rintro hnil
  have hperm := outline.items part hpart group hgroup
  rw [hnil] at hperm
  have hmem : x ∈ xs.filter fun x => outer x = part.1 ∧ inner x = group.1 := by simp [hx, hk, hl]
  rw [← hperm.nil_eq] at hmem
  exact List.not_mem_nil hmem

/-- What stands below all headings, from top to bottom. -/
def all (outline : Outline outer inner before before' le xs) : List α :=
  outline.parts.flatMap fun part => part.2.flatMap Prod.snd

theorem perm [Std.Irrefl before] [Std.Irrefl before']
    (outline : Outline outer inner before before' le xs) : outline.all.Perm xs := by
  have hpart : ∀ part ∈ outline.parts,
      (part.2.flatMap Prod.snd).Perm (xs.filter (outer · = part.1)) := by
    intro part hpart
    have hgroup : (part.2.flatMap Prod.snd).Perm (part.2.flatMap fun group =>
        (xs.filter (outer · = part.1)).filter (inner · = group.1)) := by
      refine List.Perm.flatMap_left _ fun group hgroup => ?_
      rw [List.filter_filter]
      refine (outline.items part hpart group hgroup).trans (List.Perm.of_eq ?_)
      exact List.filter_congr fun x _ => by rw [Bool.decide_and, Bool.and_comm]
    have hkeys := @perm_flatMap_filter _ _ _ inner _ (outline.subheadings part hpart).nodup
      (xs.filter (outer · = part.1)) fun x hx => (outline.mem_subheadings part hpart _).2
        ⟨x, (List.mem_filter.1 hx).1, by simpa using (List.mem_filter.1 hx).2, rfl⟩
    rw [List.flatMap_map] at hkeys
    exact hgroup.trans hkeys
  have hkeys := @perm_flatMap_filter _ _ _ outer _ outline.headings.nodup xs
    fun x hx => (outline.mem_headings _).2 ⟨x, hx, rfl⟩
  rw [List.flatMap_map] at hkeys
  exact (List.Perm.flatMap_left _ hpart).trans hkeys

end Outline

end OfbBench
