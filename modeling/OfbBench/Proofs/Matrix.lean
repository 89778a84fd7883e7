import OfbBench.Proofs.LifeCycle

/-!
# The benchmark matrix and the exit status

The loops of `main` start the selected cases in order and leave with 1 at the first that fails
(`Sweep`). So the exit status of either program says which cases were started, whatever each of them
returns (`main_matrix`), and what is selected is read off the last occurrence of each option among
the words in option position (`optionPairs`).
-/

namespace OfbBench

/-! ## Sweeps -/

section Sweep

variable {C : Type} {α : Type}

/-- The case an event starts, and what it returned. -/
def startOf : Event (Main C) → Option (C × Int)
  | ⟨.runCase case, rc⟩ => some (case, rc)
  | _ => none

/-- The cases a run of `main` starts, in order. -/
def started (t : Trace (Main C)) : List (C × Int) := t.filterMap startOf

/-- `t` runs `cases` in order, up to the first that fails. -/
inductive Sweep : List C → Trace (Main C) → Int → Prop
  | done : Sweep [] [] 0
  | passed {case : C} {cases : List C} {t : Trace (Main C)} {rc : Int} (h : Sweep cases t rc) :
      Sweep (case :: cases) (⟨.runCase case, (0 : Int)⟩ :: t) rc
  | failed {case : C} {cases : List C} {r : Int} (h : r ≠ 0) :
      Sweep (case :: cases) [⟨.runCase case, r⟩] 1

variable {cases cases' : List C} {t t' : Trace (Main C)} {rc : Int}

theorem Sweep.append (h : Sweep cases t 0) (h' : Sweep cases' t' rc) :
    Sweep (cases ++ cases') (t ++ t') rc := by
  generalize h0 : (0 : Int) = status at h
  induction h with
  | done => exact h'
  | passed _ ih => exact .passed (ih h0)
  | failed _ => exact absurd h0 (by decide)

theorem Sweep.append_failed (h : Sweep cases t rc) (hrc : rc ≠ 0) :
    Sweep (cases ++ cases') t rc := by
  induction h with
  | done => exact absurd rfl hrc
  | passed _ ih => exact .passed (ih hrc)
  | failed hr => exact .failed hr

theorem Sweep.status (h : Sweep cases t rc) : rc = 0 ∨ rc = 1 := by
  induction h with
  | done => exact .inl rfl
  | passed _ ih => exact ih
  | failed _ => exact .inr rfl

/-- A sweep without a failure has started every case. -/
theorem Sweep.started_zero (h : Sweep cases t 0) : started t = cases.map fun case => (case, 0) := by
  generalize h0 : (0 : Int) = status at h
  induction h with
  | done => rfl
  | passed _ ih =>
    subst h0
    rw [List.map_cons, ← ih rfl]
    rfl
  | failed _ => exact absurd h0 (by decide)

/-- A sweep with a failure ends at the case that failed. -/
theorem Sweep.started_one (h : Sweep cases t 1) : ∃ before case r,
    started t = before ++ [(case, r)] ∧ r ≠ 0 ∧ ∀ e ∈ before, e.2 = 0 := by
  generalize h1 : (1 : Int) = status at h
  induction h with
  | done => exact absurd h1 (by decide)
  | @passed case _ _ _ _ ih =>
    obtain ⟨before, case', r, ht, hr, hb⟩ := ih h1
    refine ⟨(case, 0) :: before, case', r, ?_, hr, ?_⟩
    · rw [List.cons_append, ← ht]
      rfl
    · rw [List.forall_mem_cons]
      exact ⟨rfl, hb⟩
  | @failed case _ r hr => exact ⟨[], case, r, rfl, hr, by simp⟩

/-- Every run of `p` sweeps `cases`. -/
def Sweeps (p : Prog (Main C) Int) (cases : List C) : Prop := ∀ t rc, p.Runs t rc → Sweep cases t rc

theorem sweeps_nil : Sweeps (pure 0 : Prog (Main C) Int) [] := by
  rintro t rc ⟨rfl, rfl⟩
  exact .done

theorem sweeps_case (case : C) :
    Sweeps (do
      let rc ← (.ask (A := Main C) (.runCase case) : Prog (Main C) Int)
      if rc ≠ 0 then pure 1 else pure 0) [case] := by
  intro t rc h
  obtain ⟨r, t', rfl, hret⟩ := Prog.runs_ask_bind.1 h
  by_cases hr : r = 0
  · rw [if_neg (not_not.2 hr)] at hret
    rw [hret.1, hret.2, hr]
    exact .passed .done
  · rw [if_pos hr] at hret
    rw [hret.1, hret.2]
    exact .failed hr

/-- Two parts in a row, of which the second is skipped when the first fails. -/
theorem Sweeps.seq {p q : Prog (Main C) Int} (hp : Sweeps p cases) (hq : Sweeps q cases') :
    Sweeps (do
      let status ← p
      if status ≠ 0 then pure status else q) (cases ++ cases') := by
  intro t rc h
  obtain ⟨t₁, t₂, status, rfl, h₁, h₂⟩ := Prog.runs_bind.1 h
  have hs := hp t₁ status h₁
  split_ifs at h₂ with hne
  · obtain ⟨rfl, rfl⟩ := h₂
    rw [List.append_nil]
    exact hs.append_failed hne
  · rw [not_not.1 hne] at hs
    exact hs.append (hq t₂ rc h₂)

theorem sweeps_forEach {body : α → Prog (Main C) Int} {f : α → List C}
    (h : ∀ x, Sweeps (body x) (f x)) (xs : List α) : Sweeps (forEach xs body) (xs.flatMap f) := by
  induction xs with
  | nil => exact sweeps_nil
  | cons x xs ih => exact (h x).seq ih

/-- A loop that passes over some of its elements. -/
theorem sweeps_forEach_filter {p : α → Prop} [DecidablePred p] {body : α → Prog (Main C) Int}
    {f : α → List C} (h : ∀ x, Sweeps (body x) (f x)) (xs : List α) :
    Sweeps (forEach xs fun x => if p x then body x else pure 0) ((xs.filter p).flatMap f) := by
  have hbody : ∀ x, Sweeps (if p x then body x else pure 0) (if p x then f x else []) := by
    intro x
    split_ifs
    · exact h x
    · exact sweeps_nil
  have hlist : (xs.filter p).flatMap f = xs.flatMap fun x => if p x then f x else [] := by
    induction xs with
    | nil => rfl
    | cons x xs ih =>
      by_cases hx : p x
      · rw [List.filter_cons_of_pos (by simpa using hx), List.flatMap_cons, List.flatMap_cons, ih,
          if_pos hx]
      · rw [List.filter_cons_of_neg (by simpa using hx), List.flatMap_cons, ih, if_neg hx,
          List.nil_append]
  rw [hlist]
  exact sweeps_forEach hbody xs

end Sweep

/-! ## Exit statuses -/

section Status

variable {C P R : Type}

/-- What the exit status `rc` of a run `t` of `main` says of the cases it started. `selected` are
the selected cases, `lists` says that `--help` or `--list` was reached, and `caseRuns` are the runs
of a case, which print `samples` rows when they succeed. -/
structure MatrixRun (selected : List C) (lists : Prop) (samples : ℕ)
    (caseRuns : C → Trace (Driver P R) → Int → Prop) (t : Trace (Main C)) (rc : Int) : Prop where
  two : rc = 2 → started t = []
  one_iff : rc = 1 ↔ ∃ e ∈ started t, e.2 ≠ 0
  one : rc = 1 → ∃ before case r, started t = before ++ [(case, r)] ∧ r ≠ 0 ∧
    ∀ e ∈ before, e.2 = 0
  listed : lists → started t = [] ∧ rc ≠ 1
  zero : rc = 0 → ¬ lists → started t = selected.map (fun case => (case, 0)) ∧
    selected.Nodup ∧ selected ≠ []
  rows : rc = 0 → ¬ lists → ∀ traces,
    List.Forall₂ (fun e trace => caseRuns e.1 trace e.2) (started t) traces →
    (traces.flatMap rows).length = samples * selected.length

variable {selected : List C} {lists : Prop} {samples : ℕ}
  {caseRuns : C → Trace (Driver P R) → Int → Prop} {t : Trace (Main C)} {rc : Int}

/-- A run that starts no case and does not return 1, nor 0 unless it lists. -/
theorem matrixRun_of_none (ht : started t = []) (hrc : rc ≠ 1) (h0 : rc = 0 → lists) :
    MatrixRun selected lists samples caseRuns t rc := by
  refine ⟨fun _ => ht, ⟨fun h => absurd h hrc, ?_⟩, fun h => absurd h hrc, fun _ => ⟨ht, hrc⟩,
    fun h hl => absurd (h0 h) hl, fun h hl => absurd (h0 h) hl⟩
  rintro ⟨e, he, -⟩
  rw [ht] at he
  exact absurd he List.not_mem_nil

/-- A run that only prints a text, which returns 2, or 0 because it lists. -/
theorem matrixRun_of_print {stream : Stream} {text : String} {status : Int}
    (h : (Prog.ask (A := Main C) (.print stream text) >>= fun _ => pure status).Runs t rc)
    (hone : status ≠ 1) (hzero : status = 0 → lists) :
    MatrixRun selected lists samples caseRuns t rc := by
  obtain ⟨_, _, rfl, rfl, rfl⟩ := h
  exact matrixRun_of_none rfl hone hzero

theorem length_flatMap_rows {cases : List C} {traces : List (Trace (Driver P R))}
    (hcases : ∀ case ∈ cases, ∀ trace, caseRuns case trace 0 → (rows trace).length = samples)
    (h : List.Forall₂ (fun e trace => caseRuns e.1 trace e.2)
      (cases.map fun case => (case, (0 : Int))) traces) :
    (traces.flatMap rows).length = samples * cases.length := by
  rw [List.forall₂_map_left_iff] at h
  induction h with
  | nil => simp
  | @cons case trace cases traces hrun _ ih =>
    obtain ⟨hcase, hrest⟩ := List.forall_mem_cons.1 hcases
    rw [List.flatMap_cons, List.length_append, hcase trace hrun, ih hrest, List.length_cons]
    ring

/-- A run that sweeps the selected cases. -/
theorem Sweep.matrixRun (h : Sweep selected t rc) (hl : ¬ lists) (hnodup : selected.Nodup)
    (hne : selected ≠ []) (hcases : ∀ case ∈ selected, ∀ trace, caseRuns case trace 0 →
      (rows trace).length = samples) :
    MatrixRun selected lists samples caseRuns t rc := by
  rcases h.status with rfl | rfl
  · have ht := h.started_zero
    refine ⟨fun h2 => absurd h2 (by decide), ⟨fun h1 => absurd h1 (by decide), ?_⟩,
      fun h1 => absurd h1 (by decide), fun hl' => absurd hl' hl, fun _ _ => ⟨ht, hnodup, hne⟩,
      fun _ _ traces htraces => length_flatMap_rows hcases (ht ▸ htraces)⟩
    rintro ⟨e, he, hr⟩
    rw [ht, List.mem_map] at he
    obtain ⟨case, -, rfl⟩ := he
    exact absurd rfl hr
  · obtain ⟨before, case, r, ht, hr, hb⟩ := h.started_one
    refine ⟨fun h2 => absurd h2 (by decide), ⟨fun _ => ⟨(case, r), ?_, hr⟩, fun _ => rfl⟩,
      fun _ => ⟨before, case, r, ht, hr, hb⟩, fun hl' => absurd hl' hl,
      fun h0 => absurd h0 (by decide), fun h0 => absurd h0 (by decide)⟩
    rw [ht]
    exact List.mem_append_right _ List.mem_cons_self

/-- What is selected key by key is selected once. -/
theorem nodup_flatMap_of_key {α β : Type} {xs : List α} {f : α → List β} {k : β → α}
    (hxs : xs.Nodup) (hf : ∀ x, (f x).Nodup) (hk : ∀ x, ∀ y ∈ f x, k y = x) :
    (xs.flatMap f).Nodup := by
  rw [List.nodup_flatMap]
  refine ⟨fun x _ => hf x, hxs.imp fun {x x'} hne => ?_⟩
  intro y hy hy'
  exact hne ((hk x y hy).symm.trans (hk x' y hy'))

end Status

/-! ## Options -/

section Options

/-- The words in option position, each with the word consumed as its value, up to `--help`, `--list`
or a word without a value. -/
def optionPairs : List String → List (String × String)
  | [] => []
  | arg :: rest =>
    if arg = "--help" ∨ arg = "--list" then []
    else match rest with
      | [] => []
      | value :: rest => (arg, value) :: optionPairs rest

/-- Whether a word in option position is `--help` or `--list`. -/
def HelpOrList : List String → Prop
  | [] => False
  | arg :: rest => arg = "--help" ∨ arg = "--list" ∨ match rest with
    | [] => False
    | _ :: rest => HelpOrList rest

/-- The value of the last occurrence of an option. -/
def lastValue (name : String) (pairs : List (String × String)) : Option String :=
  (pairs.filter (·.1 = name)).getLast?.map Prod.snd

theorem lastValue_cons {name option value : String} {pairs : List (String × String)} :
    lastValue name ((option, value) :: pairs)
      = (lastValue name pairs).or (if option = name then some value else none) := by
  unfold lastValue
  split_ifs with h
  · rw [List.filter_cons_of_pos (by simp [h]), List.getLast?_cons]
    generalize (List.filter _ pairs).getLast? = last
    cases last with
    | none => rfl
    | some pair => rfl
  · rw [List.filter_cons_of_neg (by simpa using h), Option.or_none]

/-- The number a value stands for. -/
def numberOf (value : String) : UInt64 := (parseU64 value 0).2

/-- An option loop that goes on with the options `next` after each pair ends with what `read` makes
of the pairs. -/
theorem read_of_steps {O : Type} {parse : O → List String → Parsed O}
    {read : O → List (String × String) → O} {P : O → Prop}
    (hnil : ∀ options, read options [] = options)
    (hstep : ∀ options args options', parse options args = .run options' →
      (args = [] ∧ options' = options) ∨ ∃ arg value rest next, args = arg :: value :: rest ∧
        arg ≠ "--help" ∧ arg ≠ "--list" ∧
        (∀ pairs, read options ((arg, value) :: pairs) = read next pairs) ∧
        (P options → P next) ∧ parse next rest = .run options')
    {options options' : O} {args : List String} (h : parse options args = .run options')
    (hP : P options) :
    options' = read options (optionPairs args) ∧ ¬ HelpOrList args ∧ P options' := by
  fun_induction optionPairs args generalizing options with
  | case1 =>
    obtain ⟨-, rfl⟩ | ⟨_, _, _, _, hargs, -⟩ := hstep _ _ _ h
    · exact ⟨(hnil _).symm, id, hP⟩
    · cases hargs
  | case2 arg rest harg =>
    obtain ⟨hargs, -⟩ | ⟨_, _, _, _, hargs, hh, hl, -⟩ := hstep _ _ _ h
    · cases hargs
    · cases hargs
      exact absurd harg (by simp [hh, hl])
  | case3 arg harg =>
    obtain ⟨hargs, -⟩ | ⟨_, _, _, _, hargs, -⟩ := hstep _ _ _ h
    · cases hargs
    · cases hargs
  | case4 arg harg value rest ih =>
    obtain ⟨hargs, -⟩ | ⟨_, _, _, next, hargs, hh, hl, hread, hnext, hrest⟩ := hstep _ _ _ h
    · cases hargs
    cases hargs
    obtain ⟨hopt, hno, hP'⟩ := ih hrest (hnext hP)
    refine ⟨hopt.trans (hread _).symm, ?_, hP'⟩
    rintro (he | he | he)
    · exact hh he
    · exact hl he
    · exact hno he

/-- A count of samples that passes its check is not 0. -/
theorem samples_pos {n : UInt64} (h : n ≠ 0) (h' : n ≤ uintMax) : 0 < n.toUInt32.toNat := by
  have hle : n.toNat ≤ 4294967295 := UInt64.le_iff_toNat_le.1 h'
  have hne : n.toNat ≠ 0 := fun h0 => h (UInt64.toNat_inj.1 h0)
  rw [UInt64.toNat_toUInt32, Nat.mod_eq_of_lt (by omega)]
  omega

end Options

namespace Aead

/-- The options after the pairs of an option and its value, starting from `options`: each field is
the value of the last occurrence of its option. -/
def readOptions (options : Options) (pairs : List (String × String)) : Options where
  algorithm := (lastValue "--algorithm" pairs).getD options.algorithm
  operation := (lastValue "--operation" pairs).getD options.operation
  format := (lastValue "--format" pairs).getD options.format
  size := ((lastValue "--size" pairs).map numberOf).getD options.size
  aadSize := ((lastValue "--aad-size" pairs).map numberOf).getD options.aadSize
  samples := ((lastValue "--samples" pairs).map fun v => (numberOf v).toUInt32).getD options.samples
  sampleNs := ((lastValue "--sample-ms" pairs).map fun v => numberOf v * 1000000).getD
    options.sampleNs
  sizeSet := (lastValue "--size" pairs).isSome || options.sizeSet

/-- What an option and its value do to the options. -/
inductive Reads (options : Options) (value : String) : String → Options → Prop
  | algorithm : Reads options value "--algorithm" { options with algorithm := value }
  | operation : Reads options value "--operation" { options with operation := value }
  | format : Reads options value "--format" { options with format := value }
  | size (h : numberOf value ≠ 0) :
      Reads options value "--size" { options with size := numberOf value, sizeSet := true }
  | aadSize : Reads options value "--aad-size" { options with aadSize := numberOf value }
  | samples (h : numberOf value ≠ 0) (h' : numberOf value ≤ uintMax) :
      Reads options value "--samples" { options with samples := (numberOf value).toUInt32 }
  | sampleMs (h : numberOf value ≠ 0) :
      Reads options value "--sample-ms" { options with sampleNs := numberOf value * 1000000 }

/-- The option loop ends without words left, or reads an option and its value and goes on. -/
theorem parseArgs_run {options options' : Options} {args : List String}
    (h : parseArgs options args = .run options') :
    (args = [] ∧ options' = options) ∨ ∃ arg value rest next, args = arg :: value :: rest ∧
      arg ≠ "--help" ∧ arg ≠ "--list" ∧ Reads options value arg next ∧
      parseArgs next rest = .run options' := by
  have hnum : ∀ {value rc parsed}, parseU64 value 0 = (rc, parsed) → numberOf value = parsed :=
    fun hp => congrArg Prod.snd hp
  revert h
  fun_cases parseArgs options args with
  | case1 =>
    intro h
    exact .inl ⟨rfl, (Parsed.run.inj h).symm⟩
  | case5 value rest hh hl =>
    intro h
    exact .inr ⟨_, _, _, _, rfl, hh, hl, .algorithm, h⟩
  | case6 value rest hh hl =>
    intro h
    exact .inr ⟨_, _, _, _, rfl, hh, hl, .operation, h⟩
  | case7 value rest hh hl =>
    intro h
    exact .inr ⟨_, _, _, _, rfl, hh, hl, .format, h⟩
  | case9 value rest rc parsed hp hok hh hl =>
    intro h
    rw [← hnum hp] at hok h
    exact .inr ⟨_, _, _, _, rfl, hh, hl, .size (not_or.1 (not_or.1 hok).2).1, h⟩
  | case11 value rest rc parsed hp hok hh hl =>
    intro h
    rw [← hnum hp] at hok h
    exact .inr ⟨_, _, _, _, rfl, hh, hl, .aadSize, h⟩
  | case13 value rest rc parsed hp hok hh hl =>
    intro h
    rw [← hnum hp] at hok h
    push Not at hok
    exact .inr ⟨_, _, _, _, rfl, hh, hl, .samples hok.2.1 (UInt64.not_lt.1 hok.2.2), h⟩
  | case15 value rest rc parsed hp hok hh hl =>
    intro h
    rw [← hnum hp] at hok h
    exact .inr ⟨_, _, _, _, rfl, hh, hl, .sampleMs (not_or.1 (not_or.1 hok).2).1, h⟩
  | _ => exact fun h => by cases h

theorem Reads.read {options next : Options} {arg value : String} (h : Reads options value arg next)
    (pairs : List (String × String)) :
    readOptions options ((arg, value) :: pairs) = readOptions next pairs := by
  cases h <;> simp [readOptions, lastValue_cons]

theorem Reads.samples_pos {options next : Options} {arg value : String}
    (h : Reads options value arg next) (hs : 0 < options.samples.toNat) :
    0 < next.samples.toNat := by
  cases h with
  | samples hne hle => exact OfbBench.samples_pos hne hle
  | _ => exact hs

theorem parseArgs_read {options : Options} {args : List String}
    (h : parseArgs defaultOptions args = .run options) :
    options = readOptions defaultOptions (optionPairs args) ∧ ¬ HelpOrList args ∧
      0 < options.samples.toNat := by
  have hnil : ∀ options, readOptions options [] = options := fun _ => rfl
  refine read_of_steps (P := fun options => 0 < options.samples.toNat) hnil ?_ h (by decide)
  intro options args options' h
  obtain h | ⟨arg, value, rest, next, hargs, hh, hl, hreads, hrest⟩ := parseArgs_run h
  · exact .inl h
  · exact .inr ⟨arg, value, rest, next, hargs, hh, hl, hreads.read, hreads.samples_pos, hrest⟩

/-- The selected algorithms times the selected sizes times the selected operations. -/
def selectedCases (options : Options) : List Case :=
  (algorithms.filter fun algorithm =>
    options.algorithm = "all" ∨ options.algorithm = algorithm).flatMap fun algorithm =>
  (if options.sizeSet then [options.size] else defaultSizes).flatMap fun size =>
  ([Operation.seal, Operation.open].filter fun operation =>
    options.operation = "all" ∨ options.operation = operationName operation).map fun operation =>
  ⟨options, algorithm, operation, size⟩

theorem nodup_sizes (options : Options) : (sizes options).Nodup := by
  unfold sizes
  split_ifs
  · exact List.nodup_singleton _
  · decide

theorem exists_mem_sizes (options : Options) : ∃ size, size ∈ sizes options := by
  unfold sizes
  split_ifs
  · exact ⟨_, List.mem_singleton_self _⟩
  · exact ⟨64, by decide⟩

theorem nodup_selectedCases (options : Options) : (selectedCases options).Nodup := by
  have halg : algorithms.Nodup := by decide
  have hop : [Operation.seal, Operation.open].Nodup := by decide
  refine nodup_flatMap_of_key (k := Case.algorithm) (halg.filter _) (fun algorithm => ?_)
    fun algorithm case hcase => ?_
  · refine nodup_flatMap_of_key (k := Case.messageSize) (nodup_sizes options) (fun size => ?_)
      fun size case hcase => ?_
    · exact (hop.filter _).map fun a b hab => (Case.mk.inj hab).2.2.1
    · obtain ⟨operation, -, rfl⟩ := List.mem_map.1 hcase
      rfl
  · obtain ⟨size, -, hcase⟩ := List.mem_flatMap.1 hcase
    obtain ⟨operation, -, rfl⟩ := List.mem_map.1 hcase
    rfl

theorem options_of_mem {options : Options} {case : Case} (h : case ∈ selectedCases options) :
    case.options = options := by
  obtain ⟨algorithm, -, h⟩ := List.mem_flatMap.1 h
  obtain ⟨size, -, h⟩ := List.mem_flatMap.1 h
  obtain ⟨operation, -, rfl⟩ := List.mem_map.1 h
  rfl

theorem matrix_sweeps (options : Options) : Sweeps (matrix options) (selectedCases options) := by
  unfold matrix selectedCases
  refine sweeps_forEach_filter (fun algorithm => ?_) algorithms
  refine sweeps_forEach (fun size => ?_) (sizes options)
  rw [List.map_eq_flatMap]
  exact sweeps_forEach_filter (fun operation => sweeps_case _) [Operation.seal, Operation.open]

theorem selectedCases_ne_nil {options : Options}
    (halg : options.algorithm = "all" ∨ options.algorithm ∈ algorithms)
    (hop : options.operation = "all" ∨ options.operation = "seal" ∨ options.operation = "open") :
    selectedCases options ≠ [] := by
  obtain ⟨algorithm, ha, hsel⟩ : ∃ algorithm ∈ algorithms,
      options.algorithm = "all" ∨ options.algorithm = algorithm := by
    rcases halg with h | h
    · exact ⟨"AES-128-GCM", by decide, .inl h⟩
    · exact ⟨_, h, .inr rfl⟩
  obtain ⟨operation, ho, hsel'⟩ : ∃ operation ∈ [Operation.seal, Operation.open],
      options.operation = "all" ∨ options.operation = operationName operation := by
    rcases hop with h | h | h
    · exact ⟨.seal, by decide, .inl h⟩
    · exact ⟨.seal, by decide, .inr h⟩
    · exact ⟨.open, by decide, .inr h⟩
  obtain ⟨size, hs⟩ := exists_mem_sizes options
  have hmem : (⟨options, algorithm, operation, size⟩ : Case) ∈ selectedCases options := by
    refine List.mem_flatMap.2 ⟨algorithm, List.mem_filter.2 ⟨ha, decide_eq_true hsel⟩, ?_⟩
    refine List.mem_flatMap.2 ⟨size, hs, ?_⟩
    exact List.mem_map.2 ⟨operation, List.mem_filter.2 ⟨ho, decide_eq_true hsel'⟩, rfl⟩
  exact List.ne_nil_of_mem hmem

theorem selectedCases_eq_nil {options : Options}
    (h : ¬ (options.algorithm = "all" ∨ options.algorithm ∈ algorithms)) :
    selectedCases options = [] := by
  rw [not_or] at h
  have hnone : (algorithms.filter fun algorithm =>
      options.algorithm = "all" ∨ options.algorithm = algorithm) = [] := by
    rw [List.filter_eq_nil_iff]
    intro algorithm ha hsel
    rcases of_decide_eq_true hsel with he | he
    · exact h.1 he
    · exact h.2 (he ▸ ha)
  unfold selectedCases
  rw [hnone, List.flatMap_nil]

theorem listing_of_parseArgs {options : Options} {args : List String}
    (h : parseArgs options args = .help ∨ parseArgs options args = .list) : HelpOrList args := by
  fun_induction parseArgs options args with
  | case2 =>
    unfold HelpOrList
    exact .inl rfl
  | case3 =>
    unfold HelpOrList
    exact .inr (.inl rfl)
  | case5 | case6 | case7 | case9 | case11 | case13 | case15 =>
    rename_i ih
    exact Or.inr (Or.inr (ih h))
  | _ => simp at h

/-- The options the words stand for. -/
def selectedOptions (args : List String) : Options :=
  readOptions defaultOptions (optionPairs args)

section Main

variable {rnd : ℚ → ℚ} {build : Build} {program : String} {args : List String}
  {t : Trace (Main Case)} {rc : Int}

/-- A run of a case, from its arguments. -/
def CaseRuns (rnd : ℚ → ℚ) (build : Build) (case : Case) (trace : Trace Bench) (rc : Int) : Prop :=
  (runCase rnd build case.options case.algorithm case.operation case.messageSize).Runs trace rc

/-- A case that succeeds prints as many rows as samples were asked for. -/
theorem CaseRuns.length_rows {case : Case} {trace : Trace Bench}
    (hs : 0 < case.options.samples.toNat) (h : CaseRuns rnd build case trace 0) :
    (rows trace).length = case.options.samples.toNat := by
  rcases caseWith_rows (aead_fails case.algorithm case.operation case.messageSize)
    (fun _ _ => rfl : ∀ i s, Row.sample _ = i) hs (runs_caseWith h) with ⟨-, hrows⟩ | ⟨hrc, -⟩
  · have := congrArg List.length hrows
    rwa [List.length_map, List.length_range] at this
  · exact absurd hrc (by decide)

theorem runMain_matrixRun {options : Options} (hs : 0 < options.samples.toNat) {lists : Prop}
    (hl : ¬ lists) (h : (runMain options).Runs t rc) :
    MatrixRun (selectedCases options) lists options.samples.toNat (CaseRuns rnd build) t rc := by
  unfold runMain at h
  by_cases hop : options.operation ≠ "all" ∧ options.operation ≠ "seal" ∧ options.operation ≠ "open"
  · rw [if_pos hop] at h
    exact matrixRun_of_print h (by decide) fun h => absurd h (by decide)
  rw [if_neg hop] at h
  by_cases hformat : options.format ≠ "jsonl" ∧ options.format ≠ "text"
  · rw [if_pos hformat] at h
    exact matrixRun_of_print h (by decide) fun h => absurd h (by decide)
  rw [if_neg hformat] at h
  obtain ⟨t₁, t₂, status, rfl, hm, h⟩ := Prog.runs_bind.1 h
  have hsweep := matrix_sweeps options t₁ status hm
  have hcases : ∀ case ∈ selectedCases options, ∀ trace, CaseRuns rnd build case trace 0 →
      (rows trace).length = options.samples.toNat := by
    intro case hcase trace hrun
    rw [← options_of_mem hcase] at hs ⊢
    exact hrun.length_rows hs
  by_cases halg : options.algorithm = "all" ∨ options.algorithm ∈ algorithms
  · -- whatever the sweep returns is the exit status
    have hall : t₂ = [] ∧ rc = status := by
      rw [if_pos halg] at h
      by_cases hstatus : status ≠ 0
      · rwa [if_pos hstatus] at h
      · rw [if_neg hstatus] at h
        exact ⟨h.1, h.2.trans (not_not.1 hstatus).symm⟩
    rw [hall.1, hall.2, List.append_nil]
    exact hsweep.matrixRun hl (nodup_selectedCases options)
      (selectedCases_ne_nil halg (by simpa only [ne_eq, not_and_or, not_not] using hop))
      hcases
  · rw [selectedCases_eq_nil halg] at hsweep
    cases hsweep
    rw [if_neg (by decide), if_neg halg] at h
    exact matrixRun_of_print h (by decide) fun h => absurd h (by decide)

theorem main_matrixRun (h : (main program args).Runs t rc) :
    MatrixRun (selectedCases (selectedOptions args)) (HelpOrList args)
      (selectedOptions args).samples.toNat (CaseRuns rnd build) t rc := by
  unfold main at h
  cases hp : parseArgs defaultOptions args with
  | run options =>
    rw [hp] at h
    obtain ⟨rfl, hl, hs⟩ := parseArgs_read hp
    exact runMain_matrixRun hs hl h
  | help =>
    rw [hp] at h
    exact matrixRun_of_print h (by decide) fun _ => listing_of_parseArgs (.inl hp)
  | list =>
    rw [hp] at h
    exact matrixRun_of_print h (by decide) fun _ => listing_of_parseArgs (.inr hp)
  | dangling =>
    rw [hp] at h
    exact matrixRun_of_print h (by decide) fun h => absurd h (by decide)
  | invalid option =>
    rw [hp] at h
    exact matrixRun_of_print h (by decide) fun h => absurd h (by decide)
  | unknown option =>
    rw [hp] at h
    exact matrixRun_of_print h (by decide) fun h => absurd h (by decide)

end Main

end Aead

namespace Tls

/-- The options after the pairs of an option and its value, starting from `options`: each field is
the value of the last occurrence of its option. -/
def readOptions (options : Options) (pairs : List (String × String)) : Options where
  benchmark := (lastValue "--benchmark" pairs).getD options.benchmark
  cipher := (lastValue "--cipher" pairs).getD options.cipher
  format := (lastValue "--format" pairs).getD options.format
  certificatePath := (lastValue "--cert" pairs).getD options.certificatePath
  privateKeyPath := (lastValue "--key" pairs).getD options.privateKeyPath
  size := ((lastValue "--size" pairs).map numberOf).getD options.size
  samples := ((lastValue "--samples" pairs).map fun v => (numberOf v).toUInt32).getD options.samples
  sampleNs := ((lastValue "--sample-ms" pairs).map fun v => numberOf v * 1000000).getD
    options.sampleNs
  sizeSet := (lastValue "--size" pairs).isSome || options.sizeSet

/-- What an option and its value do to the options. -/
inductive Reads (options : Options) (value : String) : String → Options → Prop
  | benchmark : Reads options value "--benchmark" { options with benchmark := value }
  | cipher : Reads options value "--cipher" { options with cipher := value }
  | format : Reads options value "--format" { options with format := value }
  | cert : Reads options value "--cert" { options with certificatePath := value }
  | key : Reads options value "--key" { options with privateKeyPath := value }
  | size (h : numberOf value ≠ 0) (h' : numberOf value ≤ intMax) :
      Reads options value "--size" { options with size := numberOf value, sizeSet := true }
  | samples (h : numberOf value ≠ 0) (h' : numberOf value ≤ uintMax) :
      Reads options value "--samples" { options with samples := (numberOf value).toUInt32 }
  | sampleMs (h : numberOf value ≠ 0) :
      Reads options value "--sample-ms" { options with sampleNs := numberOf value * 1000000 }

/-- The option loop ends without words left, or reads an option and its value and goes on. -/
theorem parseArgs_run {options options' : Options} {args : List String}
    (h : parseArgs options args = .run options') :
    (args = [] ∧ options' = options) ∨ ∃ arg value rest next, args = arg :: value :: rest ∧
      arg ≠ "--help" ∧ arg ≠ "--list" ∧ Reads options value arg next ∧
      parseArgs next rest = .run options' := by
  have hnum : ∀ {value rc parsed}, parseU64 value 0 = (rc, parsed) → numberOf value = parsed :=
    fun hp => congrArg Prod.snd hp
  revert h
  fun_cases parseArgs options args with
  | case1 =>
    intro h
    exact .inl ⟨rfl, (Parsed.run.inj h).symm⟩
  | case5 value rest hh hl =>
    intro h
    exact .inr ⟨_, _, _, _, rfl, hh, hl, .benchmark, h⟩
  | case6 value rest hh hl =>
    intro h
    exact .inr ⟨_, _, _, _, rfl, hh, hl, .cipher, h⟩
  | case7 value rest hh hl =>
    intro h
    exact .inr ⟨_, _, _, _, rfl, hh, hl, .format, h⟩
  | case8 value rest hh hl =>
    intro h
    exact .inr ⟨_, _, _, _, rfl, hh, hl, .cert, h⟩
  | case9 value rest hh hl =>
    intro h
    exact .inr ⟨_, _, _, _, rfl, hh, hl, .key, h⟩
  | case11 value rest rc parsed hp hok hh hl =>
    intro h
    rw [← hnum hp] at hok h
    push Not at hok
    exact .inr ⟨_, _, _, _, rfl, hh, hl, .size hok.2.1 (UInt64.not_lt.1 hok.2.2), h⟩
  | case13 value rest rc parsed hp hok hh hl =>
    intro h
    rw [← hnum hp] at hok h
    push Not at hok
    exact .inr ⟨_, _, _, _, rfl, hh, hl, .samples hok.2.1 (UInt64.not_lt.1 hok.2.2), h⟩
  | case15 value rest rc parsed hp hok hh hl =>
    intro h
    rw [← hnum hp] at hok h
    exact .inr ⟨_, _, _, _, rfl, hh, hl, .sampleMs (not_or.1 (not_or.1 hok).2).1, h⟩
  | _ => exact fun h => by cases h

theorem Reads.read {options next : Options} {arg value : String} (h : Reads options value arg next)
    (pairs : List (String × String)) :
    readOptions options ((arg, value) :: pairs) = readOptions next pairs := by
  cases h <;> simp [readOptions, lastValue_cons]

theorem Reads.samples_pos {options next : Options} {arg value : String}
    (h : Reads options value arg next) (hs : 0 < options.samples.toNat) :
    0 < next.samples.toNat := by
  cases h with
  | samples hne hle => exact OfbBench.samples_pos hne hle
  | _ => exact hs

theorem parseArgs_read {build : Build} {options : Options} {args : List String}
    (h : parseArgs (defaultOptions build) args = .run options) :
    options = readOptions (defaultOptions build) (optionPairs args) ∧ ¬ HelpOrList args ∧
      0 < options.samples.toNat := by
  have hnil : ∀ options, readOptions options [] = options := fun _ => rfl
  have hseven : 0 < (7 : UInt32).toNat := by decide
  refine read_of_steps (P := fun options => 0 < options.samples.toNat) hnil ?_ h hseven
  intro options args options' h
  obtain h | ⟨arg, value, rest, next, hargs, hh, hl, hreads, hrest⟩ := parseArgs_run h
  · exact .inl h
  · exact .inr ⟨arg, value, rest, next, hargs, hh, hl, hreads.read, hreads.samples_pos, hrest⟩

theorem listing_of_parseArgs {options : Options} {args : List String}
    (h : parseArgs options args = .help ∨ parseArgs options args = .list) : HelpOrList args := by
  fun_induction parseArgs options args with
  | case2 =>
    unfold HelpOrList
    exact .inl rfl
  | case3 =>
    unfold HelpOrList
    exact .inr (.inl rfl)
  | case5 | case6 | case7 | case8 | case9 | case11 | case13 | case15 =>
    rename_i ih
    exact Or.inr (Or.inr (ih h))
  | _ => simp at h

/-- The selected cases of a cipher: the handshake, then a transfer of each selected size. -/
def casesOf (options : Options) (cipher : String) : List Case :=
  (if options.benchmark = "all" ∨ options.benchmark = "handshake" then
    [⟨options, cipher, .handshake, 0⟩] else [])
  ++ if options.benchmark = "all" ∨ options.benchmark = "transfer" then
    (if options.sizeSet then [options.size] else defaultSizes).map fun size =>
      ⟨options, cipher, .transfer, size⟩
    else []

/-- The cases of the selected ciphers. -/
def selectedCases (options : Options) : List Case :=
  (ciphers.filter fun cipher => options.cipher = "all" ∨ options.cipher = cipher).flatMap
    (casesOf options)

theorem nodup_sizes (options : Options) : (sizes options).Nodup := by
  unfold sizes
  split_ifs
  · exact List.nodup_singleton _
  · decide

theorem mem_casesOf {options : Options} {cipher : String} {case : Case} :
    case ∈ casesOf options cipher ↔
      ((options.benchmark = "all" ∨ options.benchmark = "handshake") ∧
        case = ⟨options, cipher, .handshake, 0⟩) ∨
      (options.benchmark = "all" ∨ options.benchmark = "transfer") ∧
        ∃ size ∈ sizes options, ⟨options, cipher, .transfer, size⟩ = case := by
  unfold casesOf
  rw [List.mem_append, List.mem_ite_nil_right, List.mem_ite_nil_right, List.mem_singleton,
    List.mem_map]
  rfl

theorem args_of_mem {options : Options} {cipher : String} {case : Case}
    (h : case ∈ casesOf options cipher) : case.options = options ∧ case.cipher = cipher := by
  rcases mem_casesOf.1 h with ⟨-, rfl⟩ | ⟨-, size, -, rfl⟩
  · exact ⟨rfl, rfl⟩
  · exact ⟨rfl, rfl⟩

theorem nodup_casesOf (options : Options) (cipher : String) : (casesOf options cipher).Nodup := by
  have htransfers : ((sizes options).map fun size =>
      (⟨options, cipher, .transfer, size⟩ : Case)).Nodup :=
    (nodup_sizes options).map fun a b hab => (Case.mk.inj hab).2.2.2
  unfold casesOf
  refine List.Nodup.append ?_ ?_ ?_
  · split_ifs
    · exact List.nodup_singleton _
    · exact List.nodup_nil
  · by_cases ht : options.benchmark = "all" ∨ options.benchmark = "transfer"
    · rw [if_pos ht]
      exact htransfers
    · rw [if_neg ht]
      exact List.nodup_nil
  · intro case hcase hcase'
    rw [List.mem_ite_nil_right, List.mem_singleton] at hcase
    rw [List.mem_ite_nil_right, List.mem_map] at hcase'
    obtain ⟨-, rfl⟩ := hcase
    obtain ⟨-, size, -, he⟩ := hcase'
    exact absurd (Case.mk.inj he).2.2.1 (by decide)

theorem nodup_selectedCases (options : Options) : (selectedCases options).Nodup := by
  have hciphers : ciphers.Nodup := by decide
  exact nodup_flatMap_of_key (k := Case.cipher) (hciphers.filter _) (nodup_casesOf options)
    fun cipher case hcase => (args_of_mem hcase).2

theorem cipherCases_sweeps (options : Options) (cipher : String) :
    Sweeps (cipherCases options cipher) (casesOf options cipher) := by
  have heq : cipherCases options cipher =
      (if options.benchmark = "all" ∨ options.benchmark = "handshake" then
        matrixCase options cipher .handshake 0 else pure 0) >>= fun status =>
      if status ≠ 0 then pure status
      else if options.benchmark = "all" ∨ options.benchmark = "transfer" then
        forEach (sizes options) fun size => matrixCase options cipher .transfer size
      else pure 0 := by
    unfold cipherCases
    by_cases hh : options.benchmark = "all" ∨ options.benchmark = "handshake"
    · rw [if_pos hh, if_pos hh]
    · rw [if_neg hh, if_neg hh]
  rw [heq]
  unfold casesOf
  refine Sweeps.seq ?_ ?_
  · split_ifs
    · exact sweeps_case _
    · exact sweeps_nil
  · by_cases ht : options.benchmark = "all" ∨ options.benchmark = "transfer"
    · rw [if_pos ht, if_pos ht, List.map_eq_flatMap]
      exact sweeps_forEach (fun size => sweeps_case _) (sizes options)
    · rw [if_neg ht, if_neg ht]
      exact sweeps_nil

theorem cipherLoop_sweep {options : Options} {cs : List String} {matched m : Bool}
    {t : Trace (Main Case)} {rc : Int} (h : (cipherLoop options cs matched).Runs t (rc, m)) :
    Sweep ((cs.filter fun cipher => options.cipher = "all" ∨ options.cipher = cipher).flatMap
      (casesOf options)) t rc ∧
    (rc = 0 → (m = true ↔ matched = true ∨
      ∃ cipher ∈ cs, options.cipher = "all" ∨ options.cipher = cipher)) := by
  induction cs generalizing matched t with
  | nil =>
    obtain ⟨rfl, h⟩ := h
    obtain ⟨rfl, rfl⟩ := Prod.mk.inj h
    exact ⟨.done, fun _ => by simp⟩
  | cons cipher cs ih =>
    unfold cipherLoop at h
    by_cases hsel : options.cipher = "all" ∨ options.cipher = cipher
    · rw [if_neg fun hno => hsel.elim hno.1 hno.2] at h
      obtain ⟨t₁, t₂, status, rfl, h₁, h₂⟩ := Prog.runs_bind.1 h
      have hs := cipherCases_sweeps options cipher t₁ status h₁
      rw [List.filter_cons_of_pos (by simpa using hsel), List.flatMap_cons]
      by_cases hstatus : status = 0
      · rw [if_neg (not_not.2 hstatus)] at h₂
        obtain ⟨hrest, hm⟩ := ih h₂
        refine ⟨Sweep.append (hstatus ▸ hs) hrest, fun hrc => ?_⟩
        rw [hm hrc, List.exists_mem_cons_iff]
        exact iff_of_true (.inl rfl) (.inr (.inl hsel))
      · rw [if_pos hstatus] at h₂
        obtain ⟨rfl, h₂⟩ := h₂
        obtain ⟨rfl, rfl⟩ := Prod.mk.inj h₂
        rw [List.append_nil]
        exact ⟨hs.append_failed hstatus, fun hrc => absurd hrc hstatus⟩
    · rw [if_pos (not_or.1 hsel)] at h
      rw [List.filter_cons_of_neg (by simpa using hsel)]
      obtain ⟨hrest, hm⟩ := ih h
      refine ⟨hrest, fun hrc => ?_⟩
      rw [hm hrc, List.exists_mem_cons_iff, or_iff_right hsel]

theorem options_of_mem {options : Options} {case : Case} (h : case ∈ selectedCases options) :
    case.options = options := by
  obtain ⟨cipher, -, h⟩ := List.mem_flatMap.1 h
  exact (args_of_mem h).1

theorem exists_mem_sizes (options : Options) : ∃ size, size ∈ sizes options := by
  unfold sizes
  split_ifs
  · exact ⟨_, List.mem_singleton_self _⟩
  · exact ⟨1024, by decide⟩

theorem selectedCases_ne_nil {options : Options}
    (hcipher : ∃ cipher ∈ ciphers, options.cipher = "all" ∨ options.cipher = cipher)
    (hbench : options.benchmark = "all" ∨ options.benchmark = "handshake" ∨
      options.benchmark = "transfer") : selectedCases options ≠ [] := by
  obtain ⟨cipher, hc, hsel⟩ := hcipher
  obtain ⟨size, hs⟩ := exists_mem_sizes options
  have hcase : ∃ case, case ∈ casesOf options cipher := by
    simp only [mem_casesOf]
    rcases hbench with h | h | h
    · exact ⟨_, .inl ⟨.inl h, rfl⟩⟩
    · exact ⟨_, .inl ⟨.inr h, rfl⟩⟩
    · exact ⟨_, .inr ⟨.inr h, size, hs, rfl⟩⟩
  obtain ⟨case, hcase⟩ := hcase
  exact List.ne_nil_of_mem
    (List.mem_flatMap.2 ⟨cipher, List.mem_filter.2 ⟨hc, decide_eq_true hsel⟩, hcase⟩)

theorem selectedCases_eq_nil {options : Options}
    (h : ¬ ∃ cipher ∈ ciphers, options.cipher = "all" ∨ options.cipher = cipher) :
    selectedCases options = [] := by
  have hnone : (ciphers.filter fun cipher =>
      options.cipher = "all" ∨ options.cipher = cipher) = [] := by
    rw [List.filter_eq_nil_iff]
    intro cipher hc hsel
    exact h ⟨cipher, hc, of_decide_eq_true hsel⟩
  unfold selectedCases
  rw [hnone, List.flatMap_nil]

/-- The options the words stand for. -/
def selectedOptions (build : Build) (args : List String) : Options :=
  readOptions (defaultOptions build) (optionPairs args)

section Main

variable {rnd : ℚ → ℚ} {build : Build} {program : String} {args : List String}
  {t : Trace (Main Case)} {rc : Int}

/-- A run of a case, from its arguments. -/
def CaseRuns (rnd : ℚ → ℚ) (build : Build) (case : Case) (trace : Trace Bench) (rc : Int) : Prop :=
  (runCase rnd build case.options case.cipher case.benchmark case.messageSize).Runs trace rc

/-- A case that succeeds prints as many rows as samples were asked for. -/
theorem CaseRuns.length_rows {case : Case} {trace : Trace Bench}
    (hs : 0 < case.options.samples.toNat) (h : CaseRuns rnd build case trace 0) :
    (rows trace).length = case.options.samples.toNat := by
  rcases caseWith_rows (tls_fails case.cipher case.benchmark case.messageSize)
    (fun _ _ => rfl : ∀ i s, Row.sample _ = i) hs (runs_caseWith h) with ⟨-, hrows⟩ | ⟨hrc, -⟩
  · have := congrArg List.length hrows
    rwa [List.length_map, List.length_range] at this
  · exact absurd hrc (by decide)

theorem runMain_matrixRun {options : Options} (hs : 0 < options.samples.toNat) {lists : Prop}
    (hl : ¬ lists) (h : (runMain options).Runs t rc) :
    MatrixRun (selectedCases options) lists options.samples.toNat (CaseRuns rnd build) t rc := by
  unfold runMain at h
  by_cases hbad : (options.benchmark ≠ "all" ∧ options.benchmark ≠ "handshake" ∧
      options.benchmark ≠ "transfer") ∨ (options.format ≠ "jsonl" ∧ options.format ≠ "text")
  · rw [if_pos hbad] at h
    exact matrixRun_of_print h (by decide) fun h => absurd h (by decide)
  rw [if_neg hbad] at h
  obtain ⟨t₁, t₂, ⟨status, matched⟩, rfl, hm, h⟩ := Prog.runs_bind.1 h
  obtain ⟨hsweep, hmatched⟩ := cipherLoop_sweep hm
  have hcases : ∀ case ∈ selectedCases options, ∀ trace, CaseRuns rnd build case trace 0 →
      (rows trace).length = options.samples.toNat := by
    intro case hcase trace hrun
    rw [← options_of_mem hcase] at hs ⊢
    exact hrun.length_rows hs
  simp only [] at h
  by_cases hcipher : ∃ cipher ∈ ciphers, options.cipher = "all" ∨ options.cipher = cipher
  · -- whatever the sweep returns is the exit status
    have hall : t₂ = [] ∧ rc = status := by
      by_cases hstatus : status ≠ 0
      · rwa [if_pos hstatus] at h
      · rw [if_neg hstatus, if_pos ((hmatched (not_not.1 hstatus)).2 (.inr hcipher))] at h
        exact ⟨h.1, h.2.trans (not_not.1 hstatus).symm⟩
    rw [hall.1, hall.2, List.append_nil]
    exact Sweep.matrixRun hsweep hl (nodup_selectedCases options)
      (selectedCases_ne_nil hcipher
        (by simpa only [ne_eq, not_and_or, not_not] using (not_or.1 hbad).1)) hcases
  · have hnil := selectedCases_eq_nil hcipher
    unfold selectedCases at hnil
    rw [hnil] at hsweep
    cases hsweep
    have hunmatched : ¬ matched = true := by
      rw [hmatched rfl]
      simpa using hcipher
    rw [if_neg (by decide), if_neg hunmatched] at h
    exact matrixRun_of_print h (by decide) fun h => absurd h (by decide)

theorem main_matrixRun (h : (main build program args).Runs t rc) :
    MatrixRun (selectedCases (selectedOptions build args)) (HelpOrList args)
      (selectedOptions build args).samples.toNat (CaseRuns rnd build) t rc := by
  unfold main at h
  cases hp : parseArgs (defaultOptions build) args with
  | run options =>
    rw [hp] at h
    obtain ⟨rfl, hl, hs⟩ := parseArgs_read hp
    exact runMain_matrixRun hs hl h
  | help =>
    rw [hp] at h
    exact matrixRun_of_print h (by decide) fun _ => listing_of_parseArgs (.inl hp)
  | list =>
    rw [hp] at h
    exact matrixRun_of_print h (by decide) fun _ => listing_of_parseArgs (.inr hp)
  | dangling =>
    rw [hp] at h
    exact matrixRun_of_print h (by decide) fun h => absurd h (by decide)
  | invalid option =>
    rw [hp] at h
    exact matrixRun_of_print h (by decide) fun h => absurd h (by decide)
  | unknown option =>
    rw [hp] at h
    exact matrixRun_of_print h (by decide) fun h => absurd h (by decide)

end Main

end Tls

/-- The cases both programs start and their exit status, whatever each case returns. -/
theorem main_matrix (rnd : ℚ → ℚ) (build : Build) (program : String) (args : List String) :
    (∀ t rc, (Aead.main program args).Runs t rc →
      MatrixRun (Aead.selectedCases (Aead.selectedOptions args)) (HelpOrList args)
        (Aead.selectedOptions args).samples.toNat (Aead.CaseRuns rnd build) t rc) ∧
    ∀ t rc, (Tls.main build program args).Runs t rc →
      MatrixRun (Tls.selectedCases (Tls.selectedOptions build args)) (HelpOrList args)
        (Tls.selectedOptions build args).samples.toNat (Tls.CaseRuns rnd build) t rc :=
  ⟨fun _ _ => Aead.main_matrixRun, fun _ _ => Tls.main_matrixRun⟩

section Seal

/-- Two options for one case, the first of them twice. -/
def sealArgs : List String :=
  ["--size", "16", "--algorithm", "AES-128-GCM", "--operation", "seal", "--size", "64"]

def sealOptions : Aead.Options := ⟨"AES-128-GCM", "seal", "jsonl", 64, 13, 7, 250000000, true⟩

theorem runs_sealArgs : (Aead.main "ofb-aead" sealArgs).Runs
    [⟨.runCase ⟨sealOptions, "AES-128-GCM", .seal, 64⟩, (0 : Int)⟩] 0 := by
  have hp : Aead.parseArgs Aead.defaultOptions sealArgs = .run sealOptions := by
    rfl
  unfold Aead.main
  rw [hp]
  exact ⟨_, _, rfl, rfl, rfl⟩

end Seal

theorem main_matrix_seal :
    MatrixRun (Aead.selectedCases (Aead.selectedOptions sealArgs)) (HelpOrList sealArgs)
      (Aead.selectedOptions sealArgs).samples.toNat
      (Aead.CaseRuns id ⟨"x86_64", "openssl", "OpenSSL 3.5.7", "cert.pem", "key.pem"⟩)
      [⟨.runCase ⟨sealOptions, "AES-128-GCM", .seal, 64⟩, (0 : Int)⟩] 0 :=
  (main_matrix id _ "ofb-aead" sealArgs).1 _ _ runs_sealArgs

end OfbBench
