import OfbBench.Lib.Refine

/-!
# Environments side by side

Two environments of one interface restrict its answers together (`Env.both`), and what a program
achieves in each of them alone it achieves there (`wp_both`). Two of them can stand beside any
other: a record of what the calls so far have left behind (`recorded`), and a time that passes
(`timed`), of which a call takes at least its cost and an answer may show it.
-/

namespace OfbBench.Env

section Both

variable {A : Api} {σ τ α : Type}

/-- Both environments, each with a state of its own. -/
def both (E : Env A σ) (F : Env A τ) : Env A (σ × τ) where
  pre s c := E.pre s.1 c ∧ F.pre s.2 c
  step s c r s' := E.step s.1 c r s'.1 ∧ F.step s.2 c r s'.2

variable {E : Env A σ} {F : Env A τ}

theorem wp_both {p : Prog A α} {Q : α → σ → Prop} {Q' : α → τ → Prop} {s : σ} {t : τ}
    (h : E.wp p Q s) (h' : F.wp p Q' t) :
    (E.both F).wp p (fun a u => Q a u.1 ∧ Q' a u.2) (s, t) := by
  induction p generalizing s t with
  | ret a => exact ⟨h, h'⟩
  | call c k ih =>
    refine ⟨⟨h.1, h'.1⟩, ?_⟩
    rintro r ⟨s', t'⟩ ⟨hs, ht⟩
    exact ih r (h.2 r s' hs) (h'.2 r t' ht)

theorem wp_and {p : Prog A α} {Q Q' : α → σ → Prop} {s : σ} (h : E.wp p Q s) (h' : E.wp p Q' s) :
    E.wp p (fun a s => Q a s ∧ Q' a s) s := by
  induction p generalizing s with
  | ret a => exact ⟨h, h'⟩
  | call c k ih => exact ⟨h.1, fun r s' hstep => ih r (h.2 r s' hstep) (h'.2 r s' hstep)⟩

/-- A program asks no more of the other environment than it does. -/
theorem wp_both_left {p : Prog A α} {Q : α → σ → Prop} {s : σ} {t : τ} (h : E.wp p Q s)
    (hpre : ∀ t c, F.pre t c) : (E.both F).wp p (fun a u => Q a u.1) (s, t) := by
  induction p generalizing s t with
  | ret a => exact h
  | call c k ih =>
    refine ⟨⟨h.1, hpre t c⟩, ?_⟩
    rintro r ⟨s', t'⟩ ⟨hs, -⟩
    exact ih r (h.2 r s' hs)

theorem path_both {t : Trace A} {s s' : σ × τ} (h : (E.both F).Path s t s') :
    E.Path s.1 t s'.1 ∧ F.Path s.2 t s'.2 := by
  induction t generalizing s with
  | nil => exact ⟨congrArg Prod.fst h, congrArg Prod.snd h⟩
  | cons e t ih =>
    obtain ⟨s₁, ⟨hs, ht⟩, h⟩ := h
    obtain ⟨hE, hF⟩ := ih h
    exact ⟨⟨s₁.1, hs, hE⟩, s₁.2, ht, hF⟩

end Both

section Recorded

variable {A B : Api} {R α : Type}

/-- What the calls leave behind, in order. -/
def recorded (left : Event A → Option R) : Env A (List R) where
  pre _ _ := True
  step log c r log' := log' = log ++ (left ⟨c, r⟩).toList

theorem path_recorded {left : Event A → Option R} {t : Trace A} {log log' : List R}
    (h : (recorded left).Path log t log') : log' = log ++ t.filterMap left := by
  induction t generalizing log with
  | nil => exact h.trans (List.append_nil log).symm
  | cons e t ih =>
    obtain ⟨_, rfl, h⟩ := h
    rw [ih h, List.append_assoc]
    rcases hleft : left e with _ | r
    · rw [List.filterMap_cons_none hleft]
      rfl
    · rw [List.filterMap_cons_some hleft]
      rfl

/-- A program over an interface whose calls leave nothing behind. -/
theorem wp_link_recorded {left : Event (A.plus B) → Option R}
    (hleft : ∀ c r, left ⟨.inl c, r⟩ = none) (p : Prog A α) (log : List R) :
    (recorded left).wp (p.link Prog.askLeft) (fun _ log' => log' = log) log := by
  induction p with
  | ret a => rfl
  | call c k ih =>
    refine ⟨trivial, ?_⟩
    rintro r _ rfl
    rw [hleft, Option.toList_none, List.append_nil]
    exact ih r

end Recorded

section Timed

variable {A B : Api} {α : Type} {cost : A.Call → ℕ}
  {answers : (c : A.Call) → A.Resp c → ℕ → Prop}

/-- A call takes at least its cost, and its answer may depend on the time after it. -/
def timed (cost : A.Call → ℕ) (answers : (c : A.Call) → A.Resp c → ℕ → Prop) : Env A ℕ where
  pre _ _ := True
  step now c r now' := now + cost c ≤ now' ∧ answers c r now'

/-- No program turns the time back. -/
theorem wp_timed_le (p : Prog A α) (now : ℕ) :
    (timed cost answers).wp p (fun _ now' => now ≤ now') now := by
  induction p generalizing now with
  | ret a => exact le_refl now
  | call c k ih =>
    refine ⟨trivial, fun r now' hstep => ?_⟩
    have hnow : now ≤ now' := (Nat.le_add_right now (cost c)).trans hstep.1
    exact (timed cost answers).wp_mono (ih r now') fun _ _ => hnow.trans

/-- The time calls take, whatever they are answered. -/
abbrev metered (cost : A.Call → ℕ) : Env A ℕ := timed cost fun _ _ _ => True

/-- A program over the first interface takes its time whatever the second answers. -/
theorem wp_link_timed {cost : (A.plus B).Call → ℕ}
    {answers : (c : (A.plus B).Call) → (A.plus B).Resp c → ℕ → Prop} {p : Prog A α}
    {Q : α → ℕ → Prop} {now : ℕ} (h : (metered fun c => cost (.inl c)).wp p Q now) :
    (timed cost answers).wp (p.link Prog.askLeft) Q now := by
  induction p generalizing now with
  | ret a => exact h
  | call c k ih => exact ⟨trivial, fun r now' hstep => ih r (h.2 r now' ⟨hstep.1, trivial⟩)⟩

end Timed

end OfbBench.Env
