import OfbBench.Proofs.Executables
import OfbBench.Proofs.Faultless
import OfbBench.Proofs.Fixture
import OfbBench.Proofs.Numerals

/-!
# The AEAD benchmark completes

With a library that fails no call, memory for all it asks for, and a clock that shows the time and
of which an encryption takes a nanosecond, each selected case takes all its samples, and the exit
status is 0 (`aead_completes`).
-/

namespace OfbBench

/-! ## The matrix -/

section Sweep

variable {C P R K : Type} {cell : R → K} {log : List K} {now : ℕ}

/-- Unless the clock has shown all it can, `p` returns 0 and has printed `cells`. -/
def Completes (cell : R → K) (p : Prog (Driver P R) Int) (cells : List K) : Prop :=
  ∀ log now, (succeedingEnv cell).wp p
    (fun rc s => Late s ∨ (rc = 0 ∧ s.1 = log ++ cells)) (log, now)

theorem late_of_path {s s' : List K × ℕ} {t : Trace (Driver P R)}
    (hpath : (succeedingEnv cell).Path s t s') (hs : Late s) : Late s' := by
  induction t generalizing s with
  | nil => exact hpath ▸ hs
  | cons e t ih =>
    obtain ⟨s₁, ⟨-, hnow, -⟩, hpath⟩ := hpath
    refine ih hpath ?_
    unfold Late at hs ⊢
    omega

/-- A sweep of cases that complete. -/
theorem Sweep.completes {mainCall : (c : Main.Call C) → Prog (Driver P R) (Main.Resp c)}
    {cellsOf : C → List K} {cases : List C} {s : Trace (Main C)} {status : Int}
    (h : Sweep cases s status)
    (hcases : ∀ case ∈ cases, Completes cell (mainCall (.runCase case)) (cellsOf case))
    {t : Trace (Driver P R)} {s' : List K × ℕ} (himpl : Prog.Implements mainCall s t)
    (hpath : (succeedingEnv cell).Path (log, now) t s') :
    Late s' ∨ (status = 0 ∧ s'.1 = log ++ cases.flatMap cellsOf) := by
  induction h generalizing log now t with
  | done =>
    obtain rfl : t = [] := himpl
    obtain rfl : s' = (log, now) := hpath
    exact .inr ⟨rfl, (List.append_nil log).symm⟩
  | @passed case cases _ _ _ ih =>
    obtain ⟨t₁, t₂, rfl, hrun, himpl⟩ := himpl
    obtain ⟨⟨log₁, now₁⟩, h₁, h₂⟩ := (Env.path_append _).1 hpath
    obtain ⟨hcase, hcases⟩ := List.forall_mem_cons.1 hcases
    rcases Env.wp_sound _ (hcase log now) hrun h₁ with hlate | ⟨-, hlog⟩
    · exact .inl (late_of_path h₂ hlate)
    · obtain rfl : log₁ = log ++ cellsOf case := hlog
      rw [List.flatMap_cons, ← List.append_assoc]
      exact ih hcases himpl h₂
  | @failed case cases r hr =>
    obtain ⟨t₁, t₂, rfl, hrun, ht₂⟩ := himpl
    obtain ⟨s₁, h₁, h₂⟩ := (Env.path_append _).1 hpath
    rcases Env.wp_sound _ (hcases case List.mem_cons_self log now) hrun h₁ with hlate | ⟨hrc, -⟩
    · exact .inl (late_of_path h₂ hlate)
    · exact absurd hrc hr

/-- A program that sweeps cases that complete. -/
theorem completes_link {mainCall : (c : Main.Call C) → Prog (Driver P R) (Main.Resp c)}
    {cellsOf : C → List K} {cases : List C} {p : Prog (Main C) Int} (hsweeps : Sweeps p cases)
    (hcases : ∀ case ∈ cases, Completes cell (mainCall (.runCase case)) (cellsOf case)) :
    Completes cell (p.link mainCall) (cases.flatMap cellsOf) := by
  intro log now
  refine Env.wp_of_runs (fun _ _ => ⟨trivial, trivial⟩) fun t status s hrun hpath => ?_
  obtain ⟨u, hu, himpl⟩ := Prog.runs_link.1 hrun
  exact (hsweeps u status hu).completes hcases himpl hpath

end Sweep

namespace Aead

/-! ## The library -/

/-- What `create` makes a backend for. -/
def Params.Supported (params : Params) : Prop :=
  params.messageSize ≤ intMax ∧ params.aadSize ≤ intMax ∧ params.algorithm ∈ algorithms

theorem findCipher_ne_none {name : String} (h : name ∈ algorithms) : findCipher name ≠ none := by
  have hall : ∀ name ∈ algorithms, findCipher name ≠ none := by decide
  exact hall name h

/-- What is asked for is allocated. -/
def Granted : (call : Evp.Call) → Evp.Resp call → Prop
  | .callocState, answer => answer ≠ none
  | .calloc _, answer => answer ≠ none
  | .malloc _, answer => answer ≠ none
  | .ctxNew, answer => answer ≠ none
  | _, _ => True

def plenty : Env Evp Unit where
  pre _ _ := True
  step _ call answer _ := Granted call answer

/-- No call fails, for want of memory or otherwise. -/
def faultlessEnv (scheme : Scheme) : Env Evp ((Ptr → Phase) × Unit) :=
  (evpEnv scheme False).both plenty

/-- An encryption or a decryption takes a nanosecond. -/
def updateCost : Evp.Call → ℕ
  | .update _ _ _ _ => 1
  | _ => 0

section Backend

variable {scheme : Scheme} {params : Params} {state : Backend} {now : ℕ}

theorem wp_allocate_plenty {self : Ptr} :
    plenty.wp (allocate self params) (fun state _ => state.ctx ≠ none ∧ state.aad.ptr ≠ none
      ∧ state.plaintext.ptr ≠ none ∧ state.ciphertext.ptr ≠ none ∧ state.output.ptr ≠ none) () := by
  refine ⟨trivial, fun ctx _ hctx => ⟨trivial, fun aad _ haad => ⟨trivial, fun plaintext _ hplain =>
    ⟨trivial, fun ciphertext _ hct => ⟨trivial, fun output _ hout => ?_⟩⟩⟩⟩⟩
  refine ⟨hctx, ?_, buffer_ptr_ne_none hplain, buffer_ptr_ne_none hct, buffer_ptr_ne_none hout⟩
  simp only [zeroed_ptr]
  exact haad

/-- With its buffers allocated, `create` makes a backend. -/
theorem wp_setUp_faultless {self : Ptr} (h : params.Supported) {u : (Ptr → Phase) × Unit} :
    (faultlessEnv scheme).wp (setUp self params (some none))
      (fun out _ => ∃ state cipher, out = (0, some (some state)) ∧ Fixture scheme state cipher)
      u := by
  obtain ⟨hmessage, -, halg⟩ := h
  unfold setUp
  rw [Env.wp_bind]
  refine Env.wp_mono _ (Env.wp_both (wp_allocate (UInt64.not_lt.2 hmessage)
    fun state _ (ha : Allocated params state) => ha) wp_allocate_plenty) ?_
  rintro state u' ⟨ha, hctx, haad, hplain, hct, hout⟩
  have hcipher : state.cipher ≠ none := by
    rw [ha.made.cipher]
    exact findCipher_ne_none halg
  rw [if_neg (by simp only [hcipher, hctx, haad, hplain, hct, hout, or_self, not_false_eq_true])]
  obtain ⟨cipher, hfilled⟩ := ha.filled hcipher hctx hplain hct hout
  generalize state.fillInputs params = filled at hfilled
  rw [Env.wp_bind]
  refine Env.wp_mono _ (Env.wp_both_left (wp_encryptOnce hfilled.cipher hfilled.room
    (Q := fun out _ => ∃ bytes, bytes.take filled.message.length = (filled.enc scheme cipher).1
      ∧ out = (0, bytes, (filled.enc scheme cipher).2))
    (fun bytes _ _ htake => ⟨bytes, htake, rfl⟩) fun h => h.elim) fun _ _ => trivial) ?_
  rintro out u'' ⟨bytes, htake, rfl⟩
  exact ⟨_, cipher, rfl, hfilled.fixture htake⟩

theorem wp_create_faultless (h : params.Supported) {u : (Ptr → Phase) × Unit} :
    (faultlessEnv scheme).wp (ofbBackendCreate (some params) (some none))
      (fun out _ => ∃ state cipher, out = (0, some (some state)) ∧ Fixture scheme state cipher)
      u := by
  unfold ofbBackendCreate
  simp only
  rw [if_neg (not_or.2 ⟨UInt64.not_lt.2 h.1, UInt64.not_lt.2 h.2.1⟩)]
  refine ⟨⟨trivial, trivial⟩, ?_⟩
  rintro (_ | self) u' ⟨-, hself⟩
  · exact absurd rfl hself
  · exact wp_setUp_faultless h

/-! ### The time of a batch -/

theorem wp_evpUpdate_metered {direction : Direction} {ctx : Option Ptr} {room : ℕ}
    {input : List UInt8} : (Env.metered updateCost).wp (evpUpdate direction ctx room input)
      (fun _ now' => now + 1 ≤ now') now :=
  ⟨trivial, fun _ _ h => h.1⟩

theorem wp_encryptWith_metered {ctx : Option Ptr} {bytes tag : List UInt8} :
    (Env.metered updateCost).wp (encryptWith state ctx bytes tag)
      (fun out now' => out.1 = 0 → now + 1 ≤ now') now := by
  unfold encryptWith
  rw [Env.wp_bind]
  refine Env.wp_mono _ (Env.wp_timed_le _ now) fun rc now₁ hstart => ?_
  split_ifs with hrc
  · exact fun h => absurd (show (-1 : ℤ) = 0 from h) (by decide)
  rw [Env.wp_bind]
  refine Env.wp_mono _ wp_evpUpdate_metered fun data now₂ hupdate => ?_
  refine Env.wp_mono _ (Env.wp_timed_le _ now₂) fun out now' hrest _ => ?_
  omega

theorem wp_decryptWith_metered {ctx : Option Ptr} {bytes : List UInt8} :
    (Env.metered updateCost).wp (decryptWith state ctx bytes)
      (fun out now' => out.1 = 0 → now + 1 ≤ now') now := by
  unfold decryptWith
  rw [Env.wp_bind]
  refine Env.wp_mono _ (Env.wp_timed_le _ now) fun rc now₁ hstart => ?_
  split_ifs with hrc
  · exact fun h => absurd (show (-1 : ℤ) = 0 from h) (by decide)
  rw [Env.wp_bind]
  refine Env.wp_mono _ wp_evpUpdate_metered fun data now₂ hupdate => ?_
  refine Env.wp_mono _ (Env.wp_timed_le _ now₂) fun out now' hrest _ => ?_
  omega

/-- A batch that succeeds has encrypted or decrypted as many times as it was asked to. -/
theorem wp_batch_metered {iterations : ℕ} :
    (Env.metered updateCost).wp (batch state iterations)
      (fun out now' => out.1 = 0 → now + iterations ≤ now') now := by
  induction iterations generalizing state now with
  | zero => exact fun _ => le_refl now
  | succ iterations ih =>
    have hnext : ∀ (state : Backend) (now₁ : ℕ), now + 1 ≤ now₁ →
        (Env.metered updateCost).wp (batch state iterations)
          (fun out now' => out.1 = 0 → now + (iterations + 1) ≤ now') now₁ := by
      intro state now₁ hnow
      refine Env.wp_mono _ (@ih state now₁) fun out now' h hrc => ?_
      have hlast := h hrc
      omega
    unfold batch
    rcases state.operation with _ | _
    · simp only
      rw [Env.wp_bind]
      refine Env.wp_mono _ wp_encryptWith_metered fun out now₁ hnow => ?_
      split_ifs with hrc
      · exact fun h => absurd (show (-1 : ℤ) = 0 from h) (by decide)
      · exact hnext _ now₁ (hnow (not_not.1 hrc))
    · simp only
      rw [Env.wp_bind]
      refine Env.wp_mono _ wp_decryptWith_metered fun out now₁ hnow => ?_
      split_ifs with hrc
      · exact fun h => absurd (show (-1 : ℤ) = 0 from h) (by decide)
      · exact hnext _ now₁ (hnow (not_not.1 hrc))

theorem wp_runBatch_metered {iterations : UInt64} :
    (Env.metered updateCost).wp (ofbBackendRunBatch state iterations)
      (fun out now' => out.1 = 0 → now + iterations.toNat ≤ now') now := by
  unfold ofbBackendRunBatch
  rw [Env.wp_bind]
  refine Env.wp_mono _ wp_batch_metered ?_
  rintro ⟨rc, state'⟩ now' hnow
  simp only
  by_cases hrc : rc = 0
  · rw [if_neg (not_not.2 hrc)]
    exact fun _ => hnow hrc
  · rw [if_pos hrc]
    exact fun h => absurd (show (-1 : ℤ) = 0 from h) (by decide)

theorem Kept.self {init : Backend} (h : Kept init state) : state.self = init.self := by
  rw [h.same]

/-- A backend that fails no call owns its fixture. -/
theorem implementation_faultless (scheme : Scheme) :
    implementation.Faultless (faultlessEnv scheme) updateCost Params.Supported (fun _ => True)
      (fun state _ => ∃ cipher, Fixture scheme state cipher) where
  create params u h _ := by
    refine Env.wp_mono _ (wp_create_faultless h) ?_
    rintro out u' ⟨state, cipher, rfl, hf⟩
    exact ⟨state, rfl, cipher, hf⟩
  verify := by
    rintro state unset u - ⟨cipher, hf⟩
    exact Env.wp_both_left (wp_verify (Q := fun out _ => out.1 = 0 ∧ out.2.self = state.self
      ∧ ∃ cipher, Fixture scheme out.2 cipher) hf
      (fun state' _ hk => ⟨rfl, hk.self, cipher, hk.fixture hf⟩) fun h => h.elim) fun _ _ => trivial
  runBatch := by
    rintro state n u ⟨cipher, hf⟩
    exact Env.wp_both_left (wp_runBatch (Q := fun out _ => (0 < n.toNat → out.1 = 0)
      ∧ out.2.self = state.self ∧ ∃ cipher, Fixture scheme out.2 cipher) hf
      (fun state' _ hk => ⟨fun _ => rfl, hk.self, cipher, hk.fixture hf⟩) fun h => h.elim)
      fun _ _ => trivial
  destroy := by
    rintro state u -
    exact Env.wp_both_left (wp_ofbBackendDestroy (Q := fun _ _ => True) fun _ => trivial)
      fun _ _ => trivial
  destroy_none _ := rfl
  elapsed _ _ _ _ _ := wp_runBatch_metered

end Backend

/-! ## The program -/

/-- What a row says of which sample it is. -/
def Row.label (row : Row) : String × String × UInt64 × UInt64 × ℕ :=
  (row.algorithm, row.operation, row.messageBytes, row.aadBytes, row.sample)

/-- The samples of a case. -/
def Case.labels (case : Case) : List (String × String × UInt64 × UInt64 × ℕ) :=
  (List.range case.options.samples.toNat).map fun i =>
    (case.algorithm, operationName case.operation, case.messageSize, case.options.aadSize, i)

/-- A target is of two nanoseconds at least. -/
theorem two_le_sampleNs {options options' : Options} {args : List String}
    (h : parseArgs options args = .run options') (hs : 2 ≤ options.sampleNs.toNat) :
    2 ≤ options'.sampleNs.toNat := by
  fun_induction parseArgs options args with
  | case1 options =>
    obtain rfl := Parsed.run.inj h
    exact hs
  | case5 | case6 | case7 | case9 | case11 | case13 =>
    rename_i ih
    exact ih h hs
  | case15 options value rest rc parsed hp hok =>
    rename_i ih
    refine ih h ?_
    push Not at hok
    have hne : parsed.toNat ≠ 0 := fun h0 => hok.2.1 (UInt64.toNat_inj.1 h0)
    have hns := toNat_sampleMs (UInt64.not_lt.1 hok.2.2)
    simp only [hns]
    omega
  | _ => cases h

section Complete

variable {rnd : ℚ → ℚ} {build : Build} {program : String} {args : List String} {options : Options}

theorem runCase_completes (hrnd : Rounds rnd) {case : Case}
    (hfits : Fits true case.messageSize (32 * case.options.sampleNs.toNat))
    (htarget : 2 ≤ case.options.sampleNs.toNat) :
    Completes Row.label (mainCall rnd build (.runCase case)) case.labels := by
  intro log now
  change (succeedingEnv Row.label).wp (runCase rnd build case.options
    case.algorithm case.operation case.messageSize) _ _
  unfold runCase ofbCalibrate
  refine wp_caseWith_ok (fun _ _ => Or.inl) hrnd hfits ?_ ?_ fun now' =>
    Or.inr ⟨rfl, rfl⟩
  · have h64 : (64 : UInt64).toNat = 64 := rfl
    simp only [h64]
    omega
  · exact fun _ _ => rfl

/-- Options with which each selected case can take its samples: those `main` checks, sizes the
backend takes, and targets whose bytes can be counted. -/
structure Runnable (options : Options) : Prop where
  operation : options.operation = "all" ∨ options.operation = "seal" ∨ options.operation = "open"
  format : options.format = "jsonl" ∨ options.format = "text"
  algorithm : options.algorithm = "all" ∨ options.algorithm ∈ algorithms
  aadSize : options.aadSize ≤ intMax
  size : ∀ size ∈ sizes options, size ≤ intMax ∧
    32 * options.sampleNs.toNat * size.toNat ≤ uint64Max.toNat

/-- The exit status of the program is that of its sweep. -/
theorem main_sweeps (hargs : parseArgs defaultOptions args = .run options) (h : Runnable options) :
    Sweeps (main program args) (selectedCases options) := by
  have hoperation := h.operation
  have hformat := h.format
  intro s status hrun
  unfold main at hrun
  rw [hargs] at hrun
  replace hrun : (runMain options).Runs s status := hrun
  unfold runMain at hrun
  rw [if_neg (by tauto), if_neg (by tauto)] at hrun
  obtain ⟨s₁, s₂, rc, rfl, hm, hrun⟩ := Prog.runs_bind.1 hrun
  rw [if_pos h.algorithm] at hrun
  have hall : s₂ = [] ∧ status = rc := by
    by_cases hrc : rc ≠ 0
    · rwa [if_pos hrc] at hrun
    · rw [if_neg hrc] at hrun
      exact ⟨hrun.1, hrun.2.trans (not_not.1 hrc).symm⟩
  rw [hall.1, hall.2, List.append_nil]
  exact matrix_sweeps options s₁ rc hm

theorem case_completes (hrnd : Rounds rnd) (hargs : parseArgs defaultOptions args = .run options)
    (h : Runnable options) {case : Case} (hcase : case ∈ selectedCases options) :
    Completes Row.label (mainCall rnd build (.runCase case)) case.labels := by
  obtain ⟨algorithm, -, hcase⟩ := List.mem_flatMap.1 hcase
  obtain ⟨size, hsize, hcase⟩ := List.mem_flatMap.1 hcase
  obtain ⟨operation, -, rfl⟩ := List.mem_map.1 hcase
  exact runCase_completes hrnd (fun _ => (h.size size hsize).2) (two_le_sampleNs hargs (by decide))

/-- It creates backends for what its options say only. -/
theorem main_onlySupported (hargs : parseArgs defaultOptions args = .run options)
    (h : Runnable options) : ((main program args).link (mainCall rnd build)).OnlyCalls
      (DriverOnly Params.Supported fun _ => True) := by
  obtain ⟨rfl, hrun, -⟩ := parseArgs_read hargs
  refine (onlyCalls_main hrun).link (onlyCalls_mainCall ?_ fun _ _ _ _ _ => trivial)
  rintro case ⟨hoptions, halgorithm, hsize⟩
  rw [hoptions]
  exact ⟨(h.size _ hsize).1, h.aadSize, halgorithm⟩

end Complete

end Aead

/-- Where nothing fails, the AEAD benchmark takes every sample of every selected case and exits
with 0, if the clock has not shown all it can. -/
theorem aead_completes (rnd : ℚ → ℚ) (hrnd : Rounds rnd) (build : Build) (program : String)
    (args : List String) {options : Aead.Options}
    (hargs : Aead.parseArgs Aead.defaultOptions args = .run options)
    (hoptions : Aead.Runnable options) (scheme : Aead.Scheme) (phases : Ptr → Aead.Phase) (now : ℕ)
    {t : Trace (Process Aead.Evp Aead.Row)} {status : Int} {s}
    (hrun : (Aead.executable rnd build program args).Runs t status)
    (hpath : (processEnv (Aead.faultlessEnv scheme) Aead.updateCost Aead.Row.label).Path
      (((phases, ()), ()), ([], now)) t s) :
    2 ^ 64 ≤ s.2.2 ∨ (status = 0 ∧
      (printedRows t).map Aead.Row.label
        = (Aead.selectedCases options).flatMap Aead.Case.labels) := by
  have hmain : Completes Aead.Row.label
      ((Aead.main program args).link (Aead.mainCall rnd build))
      ((Aead.selectedCases options).flatMap Aead.Case.labels) :=
    completes_link (Aead.main_sweeps hargs hoptions) fun _ =>
      Aead.case_completes hrnd hargs hoptions
  exact (Aead.implementation_faultless scheme).runs (Aead.main_onlySupported hargs hoptions)
    (wp_main (aead_mainCall rnd build) _) (hmain [] now) trivial hrun hpath

/-! ## A run in which nothing fails -/

section Run

variable {L : Api} {R K τ υ α : Type}

/-- A library beside a host that answers everything, with the rows printed and the time. -/
def onTime (cost : L.Call → ℕ) (cell : R → K) (lib : τ → (c : L.Call) → L.Resp c × τ)
    (s : τ × (List K × ℕ)) : (c : (Process L R).Call) → (Process L R).Resp c × (τ × (List K × ℕ))
  | .inl c => ((lib s.1 c).1, (lib s.1 c).2, s.2.1, s.2.2 + cost c)
  | .inr c => ((tickingHost s.2.2 c).1, s.1,
      s.2.1 ++ ((rowPrinted (L := L) ⟨.inr c, (tickingHost s.2.2 c).1⟩).map cell).toList,
      (tickingHost s.2.2 c).2)

theorem tickingHost_shows (now : ℕ) (c : Host.Call R) :
    now ≤ (tickingHost now c).2 ∧
      hostShows (L := L) (.inr c) (tickingHost now c).1 (tickingHost now c).2 := by
  cases c with
  | nowNs => exact ⟨Nat.le_add_right _ _, rfl, Nat.succ_pos _⟩
  | _ => exact ⟨le_refl now, trivial⟩

/-- A run beside that host is answered as where nothing fails. -/
theorem path_onTime (cost : L.Call → ℕ) (cell : R → K) {E : Env L υ}
    {lib : τ → (c : L.Call) → L.Resp c × τ} {abs : τ → υ}
    (h : ∀ x c, E.step (abs x) c (lib x c).1 (abs (lib x c).2)) (p : Prog (Process L R) α)
    (s : τ × (List K × ℕ)) :
    (processEnv E cost cell).Path ((abs s.1, ()), s.2) (p.run (onTime cost cell lib) s).1
      ((abs (p.run (onTime cost cell lib) s).2.2.1, ()),
        (p.run (onTime cost cell lib) s).2.2.2) := by
  have hstep : ∀ (s : τ × (List K × ℕ)) (c : (Process L R).Call),
      (processEnv E cost cell).step ((abs s.1, ()), s.2) c (onTime cost cell lib s c).1
        ((abs (onTime cost cell lib s c).2.1, ()), (onTime cost cell lib s c).2.2) := by
    intro s c
    cases c with
    | inl c => exact ⟨⟨h s.1 c, rfl⟩, (List.append_nil _).symm, le_refl _, trivial⟩
    | inr c => exact ⟨⟨trivial, rfl⟩, rfl, tickingHost_shows s.2.2 c⟩
  exact Env.path_run _ hstep p s

end Run

section Seal

theorem Aead.workingLibrary_faultless (scheme : Aead.Scheme) (lib : Aead.Working)
    (call : Aead.Evp.Call) :
    (Aead.faultlessEnv scheme).step (lib.phases, ()) call (Aead.workingLibrary scheme lib call).1
      ((Aead.workingLibrary scheme lib call).2.phases, ()) := by
  refine ⟨Aead.workingLibrary_step False lib call, ?_⟩
  cases call with
  | callocState | calloc | malloc | ctxNew => exact Option.some_ne_none _
  | _ => trivial

/-- Two samples of the encryption of two bytes, to a millisecond. -/
def twoByteArgs : List String :=
  ["--algorithm", "AES-128-GCM", "--operation", "seal", "--size", "2", "--aad-size", "0",
    "--samples", "2", "--sample-ms", "1"]

def twoByteOptions : Aead.Options := ⟨"AES-128-GCM", "seal", "jsonl", 2, 0, 2, 1000000, true⟩

def twoByteProgram : Prog (Process Aead.Evp Aead.Row) Int :=
  Aead.executable id testBuild "ofb-aead" twoByteArgs

def twoByteRun : Trace (Process Aead.Evp Aead.Row) × Int ×
    (Aead.Working × (List (String × String × UInt64 × UInt64 × ℕ) × ℕ)) :=
  twoByteProgram.run
    (onTime Aead.updateCost Aead.Row.label (Aead.workingLibrary Aead.twoByteScheme))
    (⟨0, fun _ => .unknown⟩, [], 0)

theorem twoByteOptions_runnable : Aead.Runnable twoByteOptions where
  operation := .inr (.inl rfl)
  format := .inl rfl
  algorithm := .inr (by decide)
  aadSize := by decide
  size size hsize := by
    obtain rfl : size = 2 := List.mem_singleton.1 hsize
    exact ⟨by decide, by simp [twoByteOptions, toNat_uint64Max]⟩

theorem parseArgs_twoByteArgs :
    Aead.parseArgs Aead.defaultOptions twoByteArgs = .run twoByteOptions := by
  rfl

theorem labels_twoByteOptions : (Aead.selectedCases twoByteOptions).flatMap Aead.Case.labels
    = [("AES-128-GCM", "seal", 2, 0, 0), ("AES-128-GCM", "seal", 2, 0, 1)] := by
  decide

theorem rounds_id : Rounds id := by
  intro x hx
  simp only [id]
  constructor <;> linarith

/-- Its clock shows six milliseconds at the end. -/
theorem twoByteRun_now : twoByteRun.2.2.2.2 = 6000195 := by
  decide +kernel

theorem aead_completes_seal : twoByteRun.2.1 = 0 ∧
    (printedRows twoByteRun.1).map Aead.Row.label
      = [("AES-128-GCM", "seal", 2, 0, 0), ("AES-128-GCM", "seal", 2, 0, 1)] := by
  have htime : ¬ 2 ^ 64 ≤ twoByteRun.2.2.2.2 := by
    rw [twoByteRun_now]
    decide
  refine Or.resolve_left ?_ htime
  unfold twoByteRun
  generalize hp : twoByteProgram = p
  have hrun := Prog.runs_run (onTime Aead.updateCost Aead.Row.label
    (Aead.workingLibrary Aead.twoByteScheme)) p (⟨0, fun _ => .unknown⟩, [], 0)
  have hpath := path_onTime Aead.updateCost Aead.Row.label
    (Aead.workingLibrary_faultless Aead.twoByteScheme) p (⟨0, fun _ => .unknown⟩, [], 0)
  generalize p.run _ _ = out at hrun hpath ⊢
  subst hp
  rw [← labels_twoByteOptions]
  obtain ⟨t, status, lib, log, now⟩ := out
  exact aead_completes id rounds_id testBuild "ofb-aead" twoByteArgs parseArgs_twoByteArgs
    twoByteOptions_runnable Aead.twoByteScheme _ 0 hrun hpath

end Seal

end OfbBench
