import OfbBench.Lib.Prog

/-!
# Linking programs

A program whose calls are implemented by programs over other calls (`Prog.link`). A run of the
linked program is a run of the caller with each of its calls replaced by a run of the program that
implements it (`runs_link`).
-/

namespace OfbBench

/-- The calls of two interfaces. -/
def Api.plus (A B : Api) : Api where
  Call := A.Call ⊕ B.Call
  Resp
    | .inl c => A.Resp c
    | .inr c => B.Resp c

namespace Prog

variable {A B : Api} {α : Type}

/-- A call of the first interface. -/
def askLeft (c : A.Call) : Prog (A.plus B) (A.Resp c) := @ask (A.plus B) (.inl c)

/-- A call of the second interface. -/
def askRight (c : B.Call) : Prog (A.plus B) (B.Resp c) := @ask (A.plus B) (.inr c)

/-- `p` with its calls replaced by the programs that implement them. -/
def link (impl : (c : A.Call) → Prog B (A.Resp c)) : Prog A α → Prog B α
  | ret a => ret a
  | call c k => impl c >>= fun r => (k r).link impl

/-- A call of the first interface and its answer. -/
def leftEvent (e : Event A) : Event (A.plus B) := ⟨.inl e.1, e.2⟩

/-- The calls of the second interface alone. -/
def rightTrace (s : Trace B) : Trace (A.plus B) := s.map fun e => ⟨.inr e.1, e.2⟩

theorem rightEvent_injective :
    Function.Injective fun e : Event B => (⟨.inr e.1, e.2⟩ : Event (A.plus B)) := by
  rintro ⟨c, r⟩ ⟨c', r'⟩ h
  cases h
  rfl

theorem rightTrace_injective : Function.Injective (rightTrace (A := A) (B := B)) :=
  List.map_injective_iff.2 rightEvent_injective

/-- `t` is made of a run of each call of `s` in turn, which returned the answer `s` records. -/
def Implements (impl : (c : A.Call) → Prog B (A.Resp c)) : Trace A → Trace B → Prop
  | [], t => t = []
  | e :: s, t => ∃ t₁ t₂, t = t₁ ++ t₂ ∧ (impl e.1).Runs t₁ e.2 ∧ Implements impl s t₂

theorem runs_link {impl : (c : A.Call) → Prog B (A.Resp c)} {p : Prog A α} {t : Trace B} {a : α} :
    (p.link impl).Runs t a ↔ ∃ s, p.Runs s a ∧ Implements impl s t := by
  induction p generalizing t with
  | ret b =>
    constructor
    · rintro ⟨rfl, rfl⟩
      exact ⟨[], ⟨rfl, rfl⟩, rfl⟩
    · rintro ⟨s, ⟨rfl, rfl⟩, rfl⟩
      exact ⟨rfl, rfl⟩
  | call c k ih =>
    simp only [link, runs_bind]
    constructor
    · rintro ⟨t₁, t₂, r, rfl, h₁, h₂⟩
      obtain ⟨s, hs, himpl⟩ := (ih r).1 h₂
      exact ⟨⟨c, r⟩ :: s, ⟨r, s, rfl, hs⟩, t₁, t₂, rfl, h₁, himpl⟩
    · rintro ⟨_, ⟨r, s, rfl, hs⟩, t₁, t₂, rfl, h₁, himpl⟩
      exact ⟨t₁, t₂, r, rfl, h₁, (ih r).2 ⟨s, hs, himpl⟩⟩

theorem runs_link_askRight {p : Prog B α} {t : Trace (A.plus B)} {a : α} :
    (p.link askRight).Runs t a ↔ ∃ s, p.Runs s a ∧ t = rightTrace s := by
  have himpl : ∀ (s : Trace B) (t : Trace (A.plus B)),
      Implements askRight s t ↔ t = rightTrace s := by
    intro s
    induction s with
    | nil => exact fun t => Iff.rfl
    | cons e s ih =>
      intro t
      constructor
      · rintro ⟨t₁, t₂, rfl, h₁, h₂⟩
        rw [(ih t₂).1 h₂, runs_ask.1 h₁]
        rfl
      · rintro rfl
        exact ⟨_, _, rfl, runs_ask.2 rfl, (ih _).2 rfl⟩
  rw [runs_link]
  simp only [himpl]

end Prog

end OfbBench
