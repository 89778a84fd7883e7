import OfbBench.Case
import OfbBench.Cli

/-!
# The TLS program

`src/tls_main.c`: the timed batch and calibration of the TLS benchmarks, one case of the matrix
(`run_case`) and the option loop and matrix of `main`.
-/

namespace OfbBench.Tls

structure Options where
  benchmark : String
  cipher : String
  format : String
  certificatePath : String
  privateKeyPath : String
  size : UInt64
  samples : UInt32
  sampleNs : UInt64
  sizeSet : Bool
  deriving DecidableEq

/-- `ciphers` of `backends/openssl_tls.c`. -/
def ciphers : List String :=
  ["TLS_AES_128_GCM_SHA256", "TLS_AES_256_GCM_SHA384", "TLS_CHACHA20_POLY1305_SHA256"]

def ofbTlsBackendInfo (build : Build) : BackendInfo :=
  ⟨build.backendName, build.opensslVersion, ciphers⟩

def benchmarkName : Benchmark → String
  | .handshake => "handshake"
  | .transfer => "transfer"

/-- The arguments of the `printf` calls that report a sample, and whether they are the JSON ones.
-/
structure Row where
  jsonl : Bool
  architecture : String
  backend : String
  version : String
  benchmark : Benchmark
  cipher : String
  messageBytes : UInt64
  sample : ℕ
  iterations : UInt64
  elapsedNs : UInt64
  bytes : UInt64
  rate : ℚ

/-- The first `printf` call of the JSON Lines text. -/
def Row.jsonHead (row : Row) : String :=
  "\x7b\"schema_version\":1,\"architecture\":\"" ++ row.architecture ++
  "\",\"backend\":\"" ++ row.backend ++ "\",\"version\":\"" ++ row.version ++
  "\",\"benchmark\":\"tls-" ++ benchmarkName row.benchmark ++
  "\",\"tls_version\":\"TLSv1.3\",\"cipher\":\"" ++ row.cipher ++
  "\",\"message_bytes\":" ++ toString row.messageBytes.toNat ++
  ",\"sample\":" ++ toString row.sample ++
  ",\"iterations\":" ++ toString row.iterations.toNat ++
  ",\"elapsed_ns\":" ++ toString row.elapsedNs.toNat

/-- The second `printf` call, which depends on the benchmark. -/
def Row.jsonTail (row : Row) : String :=
  match row.benchmark with
  | .handshake => ",\"handshakes_per_second\":" ++ fixed plainDigits 3 row.rate ++ "\x7d\n"
  | .transfer =>
    ",\"bytes\":" ++ toString row.bytes.toNat ++
      ",\"mib_per_second\":" ++ fixed plainDigits 3 row.rate ++ "\x7d\n"

def Row.json (row : Row) : String := row.jsonHead ++ row.jsonTail

/-- What `printf` writes for a row. -/
def Row.text (row : Row) : String :=
  if row.jsonl then row.json
  else match row.benchmark with
    | .handshake =>
      padRight 29 row.cipher ++ " handshake sample=" ++ toString row.sample ++ "  " ++
        padLeft 10 (fixed plainDigits 2 row.rate) ++ " handshakes/s\n"
    | .transfer =>
      padRight 29 row.cipher ++ " transfer " ++ padLeft 7 (toString row.messageBytes.toNat) ++
        " bytes  sample=" ++ toString row.sample ++ "  " ++
        padLeft 10 (fixed plainDigits 2 row.rate) ++ " MiB/s\n"

abbrev Bench := Driver Params Row

section Timing

/-- `run_timed` counts the bytes of a transfer only. -/
def runTimed (backend : Ptr) (iterations : UInt64) (benchmark : Benchmark) (messageSize : UInt64)
    (sample : Sample) : Prog Bench (Int × Sample) :=
  timeBatch (benchmark = .transfer) backend iterations messageSize sample

/-- The count a calibration starts from. -/
def startCount : Benchmark → Count
  | .handshake => ⟨1, by decide⟩
  | .transfer => ⟨16, by decide⟩

variable (rnd : ℚ → ℚ)

def calibrate (backend : Ptr) (benchmark : Benchmark) (messageSize targetNs iterations : UInt64) :
    Prog Bench (Int × UInt64) :=
  calibrateFrom rnd (fun count sample => runTimed backend count benchmark messageSize sample)
    (startCount benchmark) targetNs iterations

end Timing

section Case

variable (rnd : ℚ → ℚ) (build : Build) (options : Options) (cipher : String)
  (benchmark : Benchmark) (messageSize : UInt64)

/-- The `cipher/benchmark/size` of an error message. -/
def caseName : String :=
  cipher ++ "/" ++ benchmarkName benchmark ++ "/" ++ toString messageSize.toNat

/-- What failed, in the words of the error message. -/
def failure : Stage → String
  | .create => "TLS backend creation failed"
  | .verify => "TLS verification or calibration failed"
  | .calibrate => "TLS verification or calibration failed"
  | .sample => "TLS benchmark failed"

/-- A failed case reports the failure and destroys the backend, if there is one. -/
def failed (stage : Stage) (backend : Option Ptr) : Prog Bench Int := do
  print .stderr (failure stage ++ ": " ++ caseName cipher benchmark messageSize ++ "\n")
  match backend with
  | none => pure (-1)
  | some backend => do
    backendDestroy (some backend)
    pure (-1)

def row (i : ℕ) (sample : Sample) : Row where
  jsonl := options.format = "jsonl"
  architecture := build.architecture
  backend := (ofbTlsBackendInfo build).name
  version := (ofbTlsBackendInfo build).version
  benchmark := benchmark
  cipher := cipher
  messageBytes := messageSize
  sample := i
  iterations := sample.iterations
  elapsedNs := sample.elapsedNs
  bytes := sample.bytes
  rate := match benchmark with
    | .handshake => handshakesPerSecond rnd sample
    | .transfer => mibPerSecond rnd sample

def runCase : Prog Bench Int :=
  caseWith
    (fun backend iterations sample => runTimed backend iterations benchmark messageSize sample)
    (row rnd build options cipher benchmark messageSize)
    (failed cipher benchmark messageSize)
    ⟨cipher, options.certificatePath, options.privateKeyPath, benchmark, messageSize⟩
    (fun backend => calibrate rnd backend benchmark messageSize options.sampleNs 0)
    options.samples.toNat

end Case

/-! ## `main` -/

def usage (program : String) : String :=
  "Usage: " ++ program ++ " [options]\n" ++
  "  --benchmark NAME    handshake, transfer, or all (default: all)\n" ++
  "  --cipher NAME       TLS 1.3 cipher suite or all (default: all)\n" ++
  "  --size BYTES        transfer size (default: 1024, 16384)\n" ++
  "  --samples COUNT     samples per case (default: 7)\n" ++
  "  --sample-ms MS      target duration per sample (default: 250)\n" ++
  "  --format FORMAT     jsonl or text (default: jsonl)\n" ++
  "  --cert PATH         server certificate PEM\n" ++
  "  --key PATH          server private key PEM\n" ++
  "  --list              list cipher suites\n" ++
  "  --help              show this help\n"

/-- The arguments of a `run_case` call. -/
structure Case where
  options : Options
  cipher : String
  benchmark : Benchmark
  messageSize : UInt64
  deriving DecidableEq

def defaultSizes : List UInt64 := [1024, 16384]

def defaultOptions (build : Build) : Options :=
  ⟨"all", "all", "jsonl", build.defaultCertPath, build.defaultKeyPath, 0, 7, 250000000, false⟩

/-- The option loop of `main`, on the words from `argv[i]` on. -/
def parseArgs (options : Options) : List String → Parsed Options
  | [] => .run options
  | arg :: rest =>
    if arg = "--help" then .help
    else if arg = "--list" then .list
    else match rest with
      | [] => .dangling
      | value :: rest =>
        if arg = "--benchmark" then parseArgs { options with benchmark := value } rest
        else if arg = "--cipher" then parseArgs { options with cipher := value } rest
        else if arg = "--format" then parseArgs { options with format := value } rest
        else if arg = "--cert" then parseArgs { options with certificatePath := value } rest
        else if arg = "--key" then parseArgs { options with privateKeyPath := value } rest
        else if arg = "--size" then
          let (rc, parsed) := parseU64 value 0
          if rc ≠ 0 ∨ parsed = 0 ∨ parsed > intMax then .invalid arg
          else parseArgs { options with size := parsed, sizeSet := true } rest
        else if arg = "--samples" then
          let (rc, parsed) := parseU64 value 0
          if rc ≠ 0 ∨ parsed = 0 ∨ parsed > uintMax then .invalid arg
          else parseArgs { options with samples := parsed.toUInt32 } rest
        else if arg = "--sample-ms" then
          let (rc, parsed) := parseU64 value 0
          if rc ≠ 0 ∨ parsed = 0 ∨ parsed > uint64Max / 1000000 then .invalid arg
          else parseArgs { options with sampleNs := parsed * 1000000 } rest
        else .unknown arg

def mainRunCase (case : Case) : Prog (Main Case) Int := .ask (A := Main Case) (.runCase case)

def mainPrint (stream : Stream) (text : String) : Prog (Main Case) Unit :=
  .ask (A := Main Case) (.print stream text)

/-- The sizes the transfer loop goes over. -/
def sizes (options : Options) : List UInt64 :=
  if options.sizeSet then [options.size] else defaultSizes

/-- A case of the matrix; the loops leave with 1 when it fails. -/
def matrixCase (options : Options) (cipher : String) (benchmark : Benchmark) (size : UInt64) :
    Prog (Main Case) Int := do
  let rc ← mainRunCase ⟨options, cipher, benchmark, size⟩
  if rc ≠ 0 then pure 1 else pure 0

/-- The cases of one cipher: the handshake, then the transfers. -/
def cipherCases (options : Options) (cipher : String) : Prog (Main Case) Int := do
  let status ←
    if options.benchmark = "all" ∨ options.benchmark = "handshake" then
      matrixCase options cipher .handshake 0
    else pure 0
  if status ≠ 0 then pure status
  else if options.benchmark = "all" ∨ options.benchmark = "transfer" then
    forEach (sizes options) fun size => matrixCase options cipher .transfer size
  else pure 0

/-- The loop of `main` over the ciphers. It returns its status and whether a cipher matched. -/
def cipherLoop (options : Options) : List String → Bool → Prog (Main Case) (Int × Bool)
  | [], matched => pure (0, matched)
  | cipher :: rest, matched =>
    if options.cipher ≠ "all" ∧ options.cipher ≠ cipher then cipherLoop options rest matched
    else do
      let status ← cipherCases options cipher
      if status ≠ 0 then pure (status, true) else cipherLoop options rest true

/-- `main` once the options are read. -/
def runMain (options : Options) : Prog (Main Case) Int := do
  if (options.benchmark ≠ "all" ∧ options.benchmark ≠ "handshake" ∧
        options.benchmark ≠ "transfer") ∨
      (options.format ≠ "jsonl" ∧ options.format ≠ "text") then do
    mainPrint .stderr "invalid benchmark or format\n"
    pure 2
  else do
    let (status, matched) ← cipherLoop options ciphers false
    if status ≠ 0 then pure status
    else if matched then pure 0
    else do
      mainPrint .stderr ("unsupported cipher: " ++ options.cipher ++ "\n")
      pure 2

/-- `main`, on the words after the program's name. -/
def main (build : Build) (program : String) (args : List String) : Prog (Main Case) Int :=
  match parseArgs (defaultOptions build) args with
  | .help => do
    mainPrint .stdout (usage program)
    pure 0
  | .list => do
    mainPrint .stdout (String.join (ciphers.map (· ++ "\n")))
    pure 0
  | .dangling => do
    mainPrint .stderr (usage program)
    pure 2
  | .invalid option => do
    mainPrint .stderr ("invalid " ++ option ++ "\n")
    pure 2
  | .unknown option => do
    mainPrint .stderr ("unknown option: " ++ option ++ "\n")
    pure 2
  | .run options => runMain options

end OfbBench.Tls
