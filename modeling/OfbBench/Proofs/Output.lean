import OfbBench.Lib.Calls
import OfbBench.Proofs.JsonLines
import OfbBench.Proofs.Matrix
import OfbBench.Program

/-!
# What the executables write

Unless it lists, an executable writes its rows to the standard output and nothing else, whatever its
library and host answer (`standardOutput_eq`); with `--format jsonl` every row is one the encoder
prints as a record (`Aead.onlyCalls_executable`, `Tls.onlyCalls_executable`). Failures are reported
on the other stream.
-/

namespace OfbBench

open Prog

/-! ## Rows and error messages only -/

section Rows

variable {L : Api} {P R S : Type} (accepts : P → Prop) (ok : R → Prop)

/-- A call that writes at most a row, of those that are `ok`, to the standard output. -/
def RowsOnly : (Process L R).Call → Prop
  | .inr (.printRow row) => ok row
  | .inr (.print stream _) => stream = .stderr
  | _ => True

/-- Likewise, and it creates a backend for parameters that are accepted. -/
def DriverOnly : Driver.Call P R → Prop
  | .backendCreate params => accepts params
  | .printRow row => ok row
  | .print stream _ => stream = .stderr
  | _ => True

variable {accepts ok}

theorem standardOutput_eq (text : R → String) {t : Trace (Process L R)}
    (h : ∀ e ∈ t, RowsOnly ok e.1) :
    standardOutput text t = String.join ((printedRows t).map text)
      ∧ ∀ row ∈ printedRows t, ok row := by
  unfold standardOutput printedRows
  induction t with
  | nil => exact ⟨rfl, by simp⟩
  | cons e t ih =>
    obtain ⟨he, ht⟩ := List.forall_mem_cons.1 h
    obtain ⟨hjoin, hrows⟩ := ih ht
    -- an event that prints no row writes nothing
    have hquiet : rowPrinted e = none → writtenBy text e = "" →
        String.join ((e :: t).map (writtenBy text))
          = String.join (((e :: t).filterMap rowPrinted).map text)
        ∧ ∀ row ∈ (e :: t).filterMap rowPrinted, ok row := by
      intro hrow hwrites
      rw [List.filterMap_cons_none hrow, List.map_cons, String.join_cons, hwrites, hjoin,
        String.empty_append]
      exact ⟨rfl, hrows⟩
    obtain ⟨c | c, r⟩ := e
    · exact hquiet rfl rfl
    cases c with
    | nowNs => exact hquiet rfl rfl
    | uninitialised size => exact hquiet rfl rfl
    | stray backend => exact hquiet rfl rfl
    | print stream message =>
      obtain rfl : stream = .stderr := he
      exact hquiet rfl rfl
    | printRow row =>
      have hsome : rowPrinted (⟨.inr (.printRow row), r⟩ : Event (Process L R)) = some row := rfl
      rw [List.filterMap_cons_some hsome, List.map_cons, List.map_cons, String.join_cons,
        String.join_cons, hjoin]
      exact ⟨rfl, List.forall_mem_cons.2 ⟨he, hrows⟩⟩

theorem onlyCalls_true {A : Api} {α : Type} (p : Prog A α) : OnlyCalls (fun _ => True) p := by
  induction p with
  | ret a => trivial
  | call c k ih => exact ⟨trivial, ih⟩

theorem onlyCalls_library {α : Type} (p : Prog L α) :
    OnlyCalls (RowsOnly ok) (library p : Prog (Process L R) α) :=
  (onlyCalls_true p).link fun _ _ => onlyCalls_ask trivial

theorem onlyCalls_host {c : Host.Call R} (h : RowsOnly (L := L) ok (.inr c)) :
    OnlyCalls (RowsOnly ok) (host c : Prog (Process L R) (Host.Resp c)) := ⟨h, fun _ => trivial⟩

/-- Linking with a backend adds no output. -/
theorem onlyCalls_serve (impl : Implementation L P S) (heap : Heap S) (c : Driver.Call P R)
    (h : DriverOnly accepts ok c) : OnlyCalls (RowsOnly ok) (impl.serve heap c) := by
  cases c with
  | backendCreate params =>
    refine OnlyCalls.bind (onlyCalls_library _) fun out => ?_
    rcases createdBackend out with _ | state
    · trivial
    · trivial
  | backendVerify backend =>
    rcases hheap : heap backend with _ | state
    · simp only [Implementation.serve, hheap]
      exact OnlyCalls.bind (onlyCalls_host trivial) fun rc => trivial
    · simp only [Implementation.serve, hheap]
      exact OnlyCalls.bind (onlyCalls_host trivial) fun unset =>
        OnlyCalls.bind (onlyCalls_library _) fun out => trivial
  | backendRunBatch backend iterations =>
    rcases hheap : heap backend with _ | state
    · simp only [Implementation.serve, hheap]
      exact OnlyCalls.bind (onlyCalls_host trivial) fun rc => trivial
    · simp only [Implementation.serve, hheap]
      exact OnlyCalls.bind (onlyCalls_library _) fun out => trivial
  | backendDestroy backend =>
    rcases backend with _ | backend
    · exact OnlyCalls.bind (onlyCalls_library _) fun _ => trivial
    rcases hheap : heap backend with _ | state
    · simp only [Implementation.serve, hheap]
      exact OnlyCalls.bind (onlyCalls_host trivial) fun rc => trivial
    · simp only [Implementation.serve, hheap]
      exact OnlyCalls.bind (onlyCalls_library _) fun _ => trivial
  | nowNs => exact OnlyCalls.bind (onlyCalls_host trivial) fun now => trivial
  | printRow row => exact OnlyCalls.bind (onlyCalls_host h) fun _ => trivial
  | print stream text => exact OnlyCalls.bind (onlyCalls_host h) fun _ => trivial

theorem onlyCalls_link {α : Type} (impl : Implementation L P S) (accepts : P → Prop)
    {p : Prog (Driver P R) α} (hp : OnlyCalls (DriverOnly accepts ok) p) :
    OnlyCalls (RowsOnly ok) (impl.link p) :=
  (hp.serve (onlyCalls_serve impl) _).bind fun _ => trivial

/-! ## A case -/

theorem onlyCalls_timeBatch (counted : Bool) (b : Ptr) (n messageSize : UInt64) (sample : Sample) :
    OnlyCalls (DriverOnly accepts ok)
      (timeBatch counted b n messageSize sample : Prog (Driver P R) (Int × Sample)) := by
  refine OnlyCalls.bind (onlyCalls_ask trivial) fun start => ?_
  split_ifs
  · trivial
  refine OnlyCalls.bind (onlyCalls_ask trivial) fun rc => ?_
  split_ifs
  · trivial
  refine OnlyCalls.bind (onlyCalls_ask trivial) fun stop => ?_
  split_ifs
  · trivial
  · trivial

theorem onlyCalls_calibrateLoop {timed : UInt64 → Sample → Prog (Driver P R) (Int × Sample)}
    (htimed : ∀ n sample, OnlyCalls (DriverOnly accepts ok) (timed n sample)) (targetNs : UInt64)
    (count : Count) (sample : Sample) :
    OnlyCalls (DriverOnly accepts ok) (calibrateLoop timed targetNs count sample) := by
  induction count, sample using calibrateLoop.induct targetNs with
  | case1 count sample ih =>
    rw [calibrateLoop]
    refine (htimed count.1 sample).bind ?_
    rintro ⟨rc, sample'⟩
    simp only
    split_ifs with hrc hstop
    · trivial
    · trivial
    · exact ih sample' hstop

theorem onlyCalls_calibrateFrom {rnd : ℚ → ℚ}
    {timed : UInt64 → Sample → Prog (Driver P R) (Int × Sample)}
    (htimed : ∀ n sample, OnlyCalls (DriverOnly accepts ok) (timed n sample)) (start : Count)
    (targetNs iterations : UInt64) :
    OnlyCalls (DriverOnly accepts ok) (calibrateFrom rnd timed start targetNs iterations) := by
  refine (onlyCalls_calibrateLoop htimed targetNs start .unset).bind ?_
  rintro ⟨rc, count, sample⟩
  simp only
  by_cases hrc : rc ≠ 0
  · rw [if_pos hrc]
    trivial
  · rw [if_neg hrc]
    trivial

variable {timed : Ptr → UInt64 → Sample → Prog (Driver P R) (Int × Sample)}
  {row : ℕ → Sample → R} {failed : Stage → Option Ptr → Prog (Driver P R) Int}

theorem onlyCalls_sampleLoop
    (htimed : ∀ b n sample, OnlyCalls (DriverOnly accepts ok) (timed b n sample))
    {samples : ℕ} (hrow : ∀ i < samples, ∀ sample, ok (row i sample))
    (hfailed : ∀ stage b, OnlyCalls (DriverOnly accepts ok) (failed stage b)) (b : Ptr) (n : UInt64)
    {remaining i : ℕ} (hle : i + remaining ≤ samples) (sample : Sample) :
    OnlyCalls (DriverOnly accepts ok) (sampleLoop timed row failed b n remaining i sample) := by
  induction remaining generalizing i sample with
  | zero => exact OnlyCalls.bind (onlyCalls_ask trivial) fun _ => trivial
  | succ remaining ih =>
    refine (htimed b n sample).bind ?_
    rintro ⟨rc, sample'⟩
    simp only
    split_ifs
    · exact hfailed _ _
    · exact OnlyCalls.bind (onlyCalls_ask (hrow i (by omega) sample')) fun _ => ih (by omega) _

theorem onlyCalls_caseWith
    (htimed : ∀ b n sample, OnlyCalls (DriverOnly accepts ok) (timed b n sample))
    {samples : ℕ} (hrow : ∀ i < samples, ∀ sample, ok (row i sample))
    (hfailed : ∀ stage b, OnlyCalls (DriverOnly accepts ok) (failed stage b)) {params : P}
    (hparams : accepts params) {calibration : Ptr → Prog (Driver P R) (Int × UInt64)}
    (hcalibration : ∀ b, OnlyCalls (DriverOnly accepts ok) (calibration b)) :
    OnlyCalls (DriverOnly accepts ok) (caseWith timed row failed params calibration samples) := by
  refine OnlyCalls.bind (onlyCalls_ask hparams) fun created => ?_
  rcases created with _ | b
  · exact hfailed _ _
  refine OnlyCalls.bind (onlyCalls_ask trivial) fun rc => ?_
  split_ifs
  · exact hfailed _ _
  refine (hcalibration b).bind ?_
  rintro ⟨rc, n⟩
  simp only
  split_ifs
  · exact hfailed _ _
  · exact onlyCalls_sampleLoop htimed hrow hfailed b n (Nat.zero_add samples).le .unset

end Rows

theorem onlyCalls_forEach {A : Api} {α : Type} {ok : A.Call → Prop} {xs : List α}
    {body : α → Prog A Int} (h : ∀ x ∈ xs, OnlyCalls ok (body x)) :
    OnlyCalls ok (forEach xs body) := by
  induction xs with
  | nil => trivial
  | cons x xs ih =>
    obtain ⟨hx, hxs⟩ := List.forall_mem_cons.1 h
    refine hx.bind fun status => ?_
    split_ifs
    · trivial
    · exact ih hxs

/-- Labels that are printed as they are. -/
structure Build.Plain (build : Build) : Prop where
  architecture : Json.Plain build.architecture
  backendName : Json.Plain build.backendName
  opensslVersion : Json.Plain build.opensslVersion

section Rates

variable {rnd : ℚ → ℚ} (hrnd : ∀ x, 0 ≤ x → 0 ≤ rnd x) (sample : Sample)

include hrnd

theorem mibPerSecond_nonneg : 0 ≤ mibPerSecond rnd sample := by
  unfold mibPerSecond
  have hbytes := hrnd sample.bytes.toNat (Nat.cast_nonneg _)
  have helapsed := hrnd sample.elapsedNs.toNat (Nat.cast_nonneg _)
  have hproduct := hrnd (rnd sample.bytes.toNat * 1000000000) (by positivity)
  exact hrnd _ (div_nonneg (hrnd _ (div_nonneg hproduct helapsed)) (by norm_num))

theorem handshakesPerSecond_nonneg : 0 ≤ handshakesPerSecond rnd sample := by
  unfold handshakesPerSecond
  have hiterations := hrnd sample.iterations.toNat (Nat.cast_nonneg _)
  have helapsed := hrnd sample.elapsedNs.toNat (Nat.cast_nonneg _)
  have hproduct := hrnd (rnd sample.iterations.toNat * 1000000000) (by positivity)
  exact hrnd _ (div_nonneg hproduct helapsed)

end Rates

namespace Aead

variable {rnd : ℚ → ℚ} {build : Build} {program : String} {args : List String}

/-- A case of the table with the selected options, or an error message. -/
def MainCalls (options : Options) : Main.Call Case → Prop
  | .runCase case =>
    case.options = options ∧ case.algorithm ∈ algorithms ∧ case.messageSize ∈ sizes options
  | .print stream _ => stream = .stderr

theorem onlyCalls_matrix (options : Options) :
    OnlyCalls (MainCalls options) (matrix options) := by
  refine onlyCalls_forEach fun algorithm halgorithm => ?_
  split_ifs
  · refine onlyCalls_forEach fun size hsize => onlyCalls_forEach fun operation _ => ?_
    unfold matrixCase
    split_ifs
    · refine OnlyCalls.bind (onlyCalls_ask ⟨rfl, halgorithm, hsize⟩) fun rc => ?_
      split_ifs
      · trivial
      · trivial
    · trivial
  · trivial

theorem onlyCalls_runMain (options : Options) :
    OnlyCalls (MainCalls options) (runMain options) := by
  have hprint : ∀ text (status : Int), OnlyCalls (MainCalls options)
      (mainPrint .stderr text >>= fun _ => pure status) :=
    fun text status => OnlyCalls.bind (onlyCalls_ask rfl) fun _ => trivial
  unfold runMain
  by_cases hoperation :
      options.operation ≠ "all" ∧ options.operation ≠ "seal" ∧ options.operation ≠ "open"
  · rw [if_pos hoperation]
    exact hprint _ _
  rw [if_neg hoperation]
  by_cases hformat : options.format ≠ "jsonl" ∧ options.format ≠ "text"
  · rw [if_pos hformat]
    exact hprint _ _
  rw [if_neg hformat]
  refine (onlyCalls_matrix options).bind fun status => ?_
  split_ifs
  · trivial
  · trivial
  · exact hprint _ _

theorem onlyCalls_main (hargs : ¬ HelpOrList args) :
    OnlyCalls (MainCalls (selectedOptions args)) (main program args) := by
  unfold main
  cases hp : parseArgs defaultOptions args with
  | run options =>
    obtain ⟨rfl, -, -⟩ := parseArgs_read hp
    exact onlyCalls_runMain _
  | help => exact absurd (listing_of_parseArgs (.inl hp)) hargs
  | list => exact absurd (listing_of_parseArgs (.inr hp)) hargs
  | dangling => exact OnlyCalls.bind (onlyCalls_ask rfl) fun _ => trivial
  | invalid option => exact OnlyCalls.bind (onlyCalls_ask rfl) fun _ => trivial
  | unknown option => exact OnlyCalls.bind (onlyCalls_ask rfl) fun _ => trivial

theorem onlyCalls_failed {accepts : Params → Prop} {ok : Row → Prop} (algorithm : String)
    (operation : Operation) (messageSize : UInt64) (stage : OfbBench.Stage) (b : Option Ptr) :
    OnlyCalls (DriverOnly accepts ok) (failed algorithm operation messageSize stage b) :=
  OnlyCalls.bind (onlyCalls_ask rfl) fun _ =>
    OnlyCalls.bind (onlyCalls_ask trivial) fun _ => trivial

theorem onlyCalls_mainCall {accepts : Params → Prop} {ok : Row → Prop} {options : Options}
    (hparams : ∀ case, MainCalls options (.runCase case) →
      accepts ⟨case.algorithm, case.operation, case.messageSize, case.options.aadSize⟩)
    (hrow : ∀ case i sample, MainCalls options (.runCase case) → i < case.options.samples.toNat →
      ok (row rnd build case.options case.algorithm case.operation case.messageSize i sample))
    (c : Main.Call Case) (hc : MainCalls options c) :
    OnlyCalls (DriverOnly accepts ok) (mainCall rnd build c) := by
  cases c with
  | print stream text => exact onlyCalls_ask hc
  | runCase case =>
    exact onlyCalls_caseWith (fun b n sample => onlyCalls_timeBatch _ _ _ _ _)
      (fun i hi sample => hrow case i sample hc hi) (onlyCalls_failed _ _ _) (hparams case hc)
      fun b => onlyCalls_calibrateFrom (fun n sample => onlyCalls_timeBatch _ _ _ _ _) _ _ _

theorem onlyCalls_executable (hrnd : ∀ x, 0 ≤ x → 0 ≤ rnd x) (hbuild : build.Plain)
    (hargs : ¬ HelpOrList args) (hformat : (selectedOptions args).format = "jsonl") :
    OnlyCalls (RowsOnly Row.Admissible) (executable rnd build program args) := by
  refine onlyCalls_link implementation (fun _ => True) ((onlyCalls_main hargs).link
    (onlyCalls_mainCall (fun _ _ => trivial) fun case i sample hcase hi => ?_))
  obtain ⟨hoptions, halgorithm, -⟩ := hcase
  exact ⟨by simp [row, hoptions, hformat], hbuild.architecture, hbuild.backendName,
    hbuild.opensslVersion, halgorithm, ⟨case.operation, rfl⟩,
    lt_trans hi case.options.samples.toNat_lt, mibPerSecond_nonneg hrnd sample⟩

end Aead

namespace Tls

variable {rnd : ℚ → ℚ} {build : Build} {program : String} {args : List String}

/-- A case of the table with the selected options, or an error message. -/
def MainCalls (options : Options) : Main.Call Case → Prop
  | .runCase case => case.options = options ∧ case.cipher ∈ ciphers ∧
    (case.benchmark = .handshake ∧ case.messageSize = 0 ∨
      case.benchmark = .transfer ∧ case.messageSize ∈ sizes options)
  | .print stream _ => stream = .stderr

theorem onlyCalls_matrixCase (options : Options) {cipher : String} (hcipher : cipher ∈ ciphers)
    {benchmark : Benchmark} {size : UInt64} (hsize : benchmark = .handshake ∧ size = 0 ∨
      benchmark = .transfer ∧ size ∈ sizes options) :
    OnlyCalls (MainCalls options) (matrixCase options cipher benchmark size) := by
  refine OnlyCalls.bind (onlyCalls_ask ⟨rfl, hcipher, hsize⟩) fun rc => ?_
  split_ifs
  · trivial
  · trivial

theorem onlyCalls_cipherCases (options : Options) {cipher : String} (hcipher : cipher ∈ ciphers) :
    OnlyCalls (MainCalls options) (cipherCases options cipher) := by
  have hrest : ∀ status : Int, OnlyCalls (MainCalls options)
      (if status ≠ 0 then pure status
      else if options.benchmark = "all" ∨ options.benchmark = "transfer" then
        forEach (sizes options) fun size => matrixCase options cipher .transfer size
      else pure 0) := by
    intro status
    split_ifs
    · trivial
    · exact onlyCalls_forEach fun size hsize =>
        onlyCalls_matrixCase options hcipher (.inr ⟨rfl, hsize⟩)
    · trivial
  unfold cipherCases
  by_cases hbenchmark : options.benchmark = "all" ∨ options.benchmark = "handshake"
  · rw [if_pos hbenchmark]
    exact (onlyCalls_matrixCase options hcipher (.inl ⟨rfl, rfl⟩)).bind hrest
  · rw [if_neg hbenchmark]
    exact hrest 0

theorem onlyCalls_cipherLoop (options : Options) {names : List String} (hnames : names ⊆ ciphers)
    (found : Bool) : OnlyCalls (MainCalls options) (cipherLoop options names found) := by
  induction names generalizing found with
  | nil => trivial
  | cons cipher rest ih =>
    obtain ⟨hcipher, hrest⟩ := List.cons_subset.1 hnames
    unfold cipherLoop
    split_ifs
    · exact ih hrest _
    · refine (onlyCalls_cipherCases options hcipher).bind fun status => ?_
      split_ifs
      · trivial
      · exact ih hrest _

theorem onlyCalls_runMain (options : Options) :
    OnlyCalls (MainCalls options) (runMain options) := by
  have hprint : ∀ text (status : Int), OnlyCalls (MainCalls options)
      (mainPrint .stderr text >>= fun _ => pure status) :=
    fun text status => OnlyCalls.bind (onlyCalls_ask rfl) fun _ => trivial
  unfold runMain
  split_ifs
  · exact hprint _ _
  · refine (onlyCalls_cipherLoop options (List.Subset.refl _) false).bind ?_
    rintro ⟨status, found⟩
    simp only
    split_ifs
    · trivial
    · trivial
    · exact hprint _ _

theorem onlyCalls_main (hargs : ¬ HelpOrList args) :
    OnlyCalls (MainCalls (selectedOptions build args)) (main build program args) := by
  unfold main
  cases hp : parseArgs (defaultOptions build) args with
  | run options =>
    obtain ⟨rfl, -, -⟩ := parseArgs_read hp
    exact onlyCalls_runMain _
  | help => exact absurd (listing_of_parseArgs (.inl hp)) hargs
  | list => exact absurd (listing_of_parseArgs (.inr hp)) hargs
  | dangling => exact OnlyCalls.bind (onlyCalls_ask rfl) fun _ => trivial
  | invalid option => exact OnlyCalls.bind (onlyCalls_ask rfl) fun _ => trivial
  | unknown option => exact OnlyCalls.bind (onlyCalls_ask rfl) fun _ => trivial

theorem onlyCalls_failed {accepts : Params → Prop} {ok : Row → Prop} (cipher : String)
    (benchmark : Benchmark) (messageSize : UInt64) (stage : OfbBench.Stage) (b : Option Ptr) :
    OnlyCalls (DriverOnly accepts ok) (failed cipher benchmark messageSize stage b) := by
  refine OnlyCalls.bind (onlyCalls_ask rfl) fun _ => ?_
  rcases b with _ | b
  · trivial
  · exact OnlyCalls.bind (onlyCalls_ask trivial) fun _ => trivial

theorem onlyCalls_mainCall {accepts : Params → Prop} {ok : Row → Prop} {options : Options}
    (hparams : ∀ case, MainCalls options (.runCase case) → accepts ⟨case.cipher,
      case.options.certificatePath, case.options.privateKeyPath, case.benchmark, case.messageSize⟩)
    (hrow : ∀ case i sample, MainCalls options (.runCase case) → i < case.options.samples.toNat →
      ok (row rnd build case.options case.cipher case.benchmark case.messageSize i sample))
    (c : Main.Call Case) (hc : MainCalls options c) :
    OnlyCalls (DriverOnly accepts ok) (mainCall rnd build c) := by
  cases c with
  | print stream text => exact onlyCalls_ask hc
  | runCase case =>
    exact onlyCalls_caseWith (fun b n sample => onlyCalls_timeBatch _ _ _ _ _)
      (fun i hi sample => hrow case i sample hc hi) (onlyCalls_failed _ _ _) (hparams case hc)
      fun b => onlyCalls_calibrateFrom (fun n sample => onlyCalls_timeBatch _ _ _ _ _) _ _ _

theorem onlyCalls_executable (hrnd : ∀ x, 0 ≤ x → 0 ≤ rnd x) (hbuild : build.Plain)
    (hargs : ¬ HelpOrList args) (hformat : (selectedOptions build args).format = "jsonl") :
    OnlyCalls (RowsOnly Row.Admissible) (executable rnd build program args) := by
  refine onlyCalls_link implementation (fun _ => True) ((onlyCalls_main hargs).link
    (onlyCalls_mainCall (fun _ _ => trivial) fun case i sample hcase hi => ?_))
  obtain ⟨hoptions, hcipher, -⟩ := hcase
  refine ⟨by simp [row, hoptions, hformat], hbuild.architecture, hbuild.backendName,
    hbuild.opensslVersion, hcipher, lt_trans hi case.options.samples.toNat_lt, ?_⟩
  unfold row
  cases case.benchmark with
  | handshake => exact handshakesPerSecond_nonneg hrnd sample
  | transfer => exact mibPerSecond_nonneg hrnd sample

end Tls

end OfbBench
