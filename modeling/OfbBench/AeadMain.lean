import OfbBench.Case
import OfbBench.Cli

/-!
# The AEAD program

`src/main.c`: one case of the matrix (`run_case`) and the option loop and matrix of `main`.
-/

namespace OfbBench.Aead

structure Options where
  algorithm : String
  operation : String
  format : String
  size : UInt64
  aadSize : UInt64
  samples : UInt32
  sampleNs : UInt64
  sizeSet : Bool
  deriving DecidableEq

/-- `algorithms` of `backends/openssl_aead.c`. -/
def algorithms : List String := ["AES-128-GCM", "AES-256-GCM", "CHACHA20-POLY1305"]

def ofbBackendInfo (build : Build) : BackendInfo :=
  ⟨build.backendName, build.opensslVersion, algorithms⟩

def operationName : Operation → String
  | .seal => "seal"
  | .open => "open"

/-- The arguments of the `printf` call that reports a sample, and whether it is the JSON one. -/
structure Row where
  jsonl : Bool
  architecture : String
  backend : String
  version : String
  algorithm : String
  operation : String
  messageBytes : UInt64
  aadBytes : UInt64
  sample : ℕ
  iterations : UInt64
  elapsedNs : UInt64
  bytes : UInt64
  mibPerSecond : ℚ

/-- The JSON Lines text of a row. -/
def Row.json (row : Row) : String :=
  "\x7b\"schema_version\":1,\"architecture\":\"" ++ row.architecture ++
  "\",\"backend\":\"" ++ row.backend ++ "\",\"version\":\"" ++ row.version ++
  "\",\"algorithm\":\"" ++ row.algorithm ++ "\",\"operation\":\"" ++ row.operation ++
  "\",\"message_bytes\":" ++ toString row.messageBytes.toNat ++
  ",\"aad_bytes\":" ++ toString row.aadBytes.toNat ++ ",\"sample\":" ++ toString row.sample ++
  ",\"iterations\":" ++ toString row.iterations.toNat ++
  ",\"elapsed_ns\":" ++ toString row.elapsedNs.toNat ++
  ",\"bytes\":" ++ toString row.bytes.toNat ++
  ",\"mib_per_second\":" ++ fixed plainDigits 3 row.mibPerSecond ++ "\x7d\n"

/-- What `printf` writes for a row. -/
def Row.text (row : Row) : String :=
  if row.jsonl then row.json
  else
    padRight 20 row.algorithm ++ " " ++ padRight 4 row.operation ++ " " ++
      padLeft 7 (toString row.messageBytes.toNat) ++ " bytes  sample=" ++ toString row.sample ++
      "  " ++ padLeft 10 (fixed plainDigits 2 row.mibPerSecond) ++ " MiB/s\n"

abbrev Bench := Driver Params Row

section Case

variable (rnd : ℚ → ℚ) (build : Build) (options : Options) (algorithm : String)
  (operation : Operation) (messageSize : UInt64)

/-- The `algorithm/operation/size` of an error message. -/
def caseName : String :=
  algorithm ++ "/" ++ operationName operation ++ "/" ++ toString messageSize.toNat

/-- What failed, in the words of the error message. -/
def failure : Stage → String
  | .create => "backend creation failed"
  | .verify => "correctness verification failed"
  | .calibrate => "calibration failed"
  | .sample => "benchmark run failed"

/-- A failed case reports the failure and destroys the backend, `NULL` when there is none. -/
def failed (stage : Stage) (backend : Option Ptr) : Prog Bench Int := do
  print .stderr (failure stage ++ ": " ++ caseName algorithm operation messageSize ++ "\n")
  backendDestroy backend
  pure (-1)

def row (i : ℕ) (sample : Sample) : Row where
  jsonl := options.format = "jsonl"
  architecture := build.architecture
  backend := (ofbBackendInfo build).name
  version := (ofbBackendInfo build).version
  algorithm := algorithm
  operation := operationName operation
  messageBytes := messageSize
  aadBytes := options.aadSize
  sample := i
  iterations := sample.iterations
  elapsedNs := sample.elapsedNs
  bytes := sample.bytes
  mibPerSecond := mibPerSecond rnd sample

def runCase : Prog Bench Int :=
  caseWith (fun backend iterations sample => ofbRunSample backend iterations messageSize sample)
    (row rnd build options algorithm operation messageSize)
    (failed algorithm operation messageSize)
    ⟨algorithm, operation, messageSize, options.aadSize⟩
    (fun backend => ofbCalibrate rnd backend messageSize options.sampleNs 0)
    options.samples.toNat

end Case

/-! ## `main` -/

def usage (program : String) : String :=
  "Usage: " ++ program ++ " [options]\n" ++
  "  --algorithm NAME    algorithm or 'all' (default: all)\n" ++
  "  --operation NAME    seal, open, or all (default: all)\n" ++
  "  --size BYTES        message size (default: 64, 1024, 16384)\n" ++
  "  --aad-size BYTES    additional data size (default: 13)\n" ++
  "  --samples COUNT     samples per case (default: 7)\n" ++
  "  --sample-ms MS      target duration per sample (default: 250)\n" ++
  "  --format FORMAT     jsonl or text (default: jsonl)\n" ++
  "  --list              list algorithms\n" ++
  "  --help              show this help\n"

/-- The arguments of a `run_case` call. -/
structure Case where
  options : Options
  algorithm : String
  operation : Operation
  messageSize : UInt64
  deriving DecidableEq

def defaultSizes : List UInt64 := [64, 1024, 16384]

def defaultOptions : Options := ⟨"all", "all", "jsonl", 0, 13, 7, 250000000, false⟩

/-- The option loop of `main`, on the words from `argv[i]` on. -/
def parseArgs (options : Options) : List String → Parsed Options
  | [] => .run options
  | arg :: rest =>
    if arg = "--help" then .help
    else if arg = "--list" then .list
    else match rest with
      | [] => .dangling
      | value :: rest =>
        if arg = "--algorithm" then parseArgs { options with algorithm := value } rest
        else if arg = "--operation" then parseArgs { options with operation := value } rest
        else if arg = "--format" then parseArgs { options with format := value } rest
        else if arg = "--size" then
          let (rc, parsed) := parseU64 value 0
          if rc ≠ 0 ∨ parsed = 0 ∨ parsed > sizeMax then .invalid arg
          else parseArgs { options with size := parsed, sizeSet := true } rest
        else if arg = "--aad-size" then
          let (rc, parsed) := parseU64 value 0
          if rc ≠ 0 ∨ parsed > sizeMax then .invalid arg
          else parseArgs { options with aadSize := parsed } rest
        else if arg = "--samples" then
          let (rc, parsed) := parseU64 value 0
          if rc ≠ 0 ∨ parsed = 0 ∨ parsed > uintMax then .invalid arg
          else parseArgs { options with samples := parsed.toUInt32 } rest
        else if arg = "--sample-ms" then
          let (rc, parsed) := parseU64 value 0
          if rc ≠ 0 ∨ parsed = 0 ∨ parsed > uint64Max / 1000000 then .invalid arg
          else parseArgs { options with sampleNs := parsed * 1000000 } rest
        else .unknown arg

def mainRunCase (case : Case) : Prog (Main Case) Int := .ask (A := Main Case) (.runCase case)

def mainPrint (stream : Stream) (text : String) : Prog (Main Case) Unit :=
  .ask (A := Main Case) (.print stream text)

def algorithmSelected (options : Options) (algorithm : String) : Prop :=
  options.algorithm = "all" ∨ options.algorithm = algorithm

instance (options : Options) (algorithm : String) :
    Decidable (algorithmSelected options algorithm) :=
  inferInstanceAs (Decidable (_ ∨ _))

/-- The sizes the inner loop goes over. -/
def sizes (options : Options) : List UInt64 :=
  if options.sizeSet then [options.size] else defaultSizes

/-- A case of the matrix, if its operation is selected; the loops leave with 1 when it fails. -/
def matrixCase (options : Options) (algorithm : String) (size : UInt64) (operation : Operation) :
    Prog (Main Case) Int :=
  if options.operation = "all" ∨ options.operation = operationName operation then do
    let rc ← mainRunCase ⟨options, algorithm, operation, size⟩
    if rc ≠ 0 then pure 1 else pure 0
  else pure 0

/-- The nested loops of `main`. -/
def matrix (options : Options) : Prog (Main Case) Int :=
  forEach algorithms fun algorithm =>
    if algorithmSelected options algorithm then
      forEach (sizes options) fun size =>
        forEach [Operation.seal, Operation.open] fun operation =>
          matrixCase options algorithm size operation
    else pure 0

/-- `main` once the options are read. -/
def runMain (options : Options) : Prog (Main Case) Int := do
  if options.operation ≠ "all" ∧ options.operation ≠ "seal" ∧ options.operation ≠ "open" then do
    mainPrint .stderr "--operation must be seal, open, or all\n"
    pure 2
  else if options.format ≠ "jsonl" ∧ options.format ≠ "text" then do
    mainPrint .stderr "--format must be jsonl or text\n"
    pure 2
  else do
    let status ← matrix options
    if status ≠ 0 then pure status
    else if options.algorithm = "all" ∨ options.algorithm ∈ algorithms then pure 0
    else do
      mainPrint .stderr ("unsupported algorithm: " ++ options.algorithm ++ "\n")
      pure 2

/-- `main`, on the words after the program's name. -/
def main (program : String) (args : List String) : Prog (Main Case) Int :=
  match parseArgs defaultOptions args with
  | .help => do
    mainPrint .stdout (usage program)
    pure 0
  | .list => do
    mainPrint .stdout (String.join (algorithms.map (· ++ "\n")))
    pure 0
  | .dangling => do
    mainPrint .stderr (usage program)
    pure 2
  | .invalid option => do
    mainPrint .stderr ("invalid " ++ option ++ "\n")
    pure 2
  | .unknown option => do
    mainPrint .stderr ("unknown option: " ++ option ++ "\n" ++ usage program)
    pure 2
  | .run options => runMain options

end OfbBench.Aead
