import OfbBench.Proofs.Rows
import OfbBench.Proofs.Summary

/-!
# The JSON Lines the programs print

A line of either program is one object whose decoding gives back the values that were printed, and
the summary reads it as one sample of one cell (`json_agrees`). The texts are the ones the library's
decoder inverts: `Row.members` are their members.
-/

namespace OfbBench

open Json Summary

/-- The rate a row shows, with three decimals. -/
def threeDecimals (rate : ℚ) : ℚ := roundHalfEven (rate * 10 ^ 3) / 10 ^ 3

/-- `line` is one object on a line of its own, with these members and no key twice. -/
structure IsRecord (line : String) (fields : List (PyString × Json)) : Prop where
  newline : ∃ body, line = body ++ "\n" ∧ '\n' ∉ body.toList
  decoded : loads line = .ok (.object fields)
  nodup : (fields.map Prod.fst).Nodup

/-- The only kind that selects `row` is `kind`, for which it is one sample of one cell. -/
structure OneSample (kind : Kind) (others : List Kind) (row : Summary.Row) (key : Key)
    (backend : Label) (sample : ℚ) : Prop where
  selected : kind.selects row = true
  not_selected : ∀ other ∈ others, other.selects row = false
  key_eq : keyOf kind.keyFields row = some key
  backend_eq : row.backend = some backend
  metric_eq : kind.metric row = some sample
  cell : ∀ rows, kind.samples (row :: rows) key backend = sample :: kind.samples rows key backend
  other_cells : ∀ rows key' backend', ¬ (key' = key ∧ backend' = backend) →
    kind.samples (row :: rows) key' backend' = kind.samples rows key' backend'
  other_kinds : ∀ other ∈ others, ∀ rows, other.samples (row :: rows) = other.samples rows

theorem oneSample {kind : Kind} {others : List Kind} {row : Summary.Row} {key : Key}
    {backend : Label} {sample : ℚ} (hsel : kind.selects row = true)
    (hothers : ∀ other ∈ others, other.selects row = false)
    (hkey : keyOf kind.keyFields row = some key) (hback : row.backend = some backend)
    (hmetric : kind.metric row = some sample) :
    OneSample kind others row key backend sample := by
  refine ⟨hsel, hothers, hkey, hback, hmetric, fun rows => ?_, fun rows key' backend' hne => ?_,
    fun other ho rows => ?_⟩
  · unfold Kind.samples samplesOf
    rw [List.filter_cons_of_pos hsel, List.filterMap_cons, if_pos ⟨hkey, hback⟩, hmetric]
  · unfold Kind.samples samplesOf
    rw [List.filter_cons_of_pos hsel, List.filterMap_cons, if_neg]
    rintro ⟨hk, hb⟩
    rw [hkey, Option.some.injEq] at hk
    rw [hback, Option.some.injEq] at hb
    exact hne ⟨hk.symm, hb.symm⟩
  · unfold Kind.samples
    rw [List.filter_cons_of_neg (by simp [hothers other ho])]

/-- The text of printable members is a record of them. -/
theorem isRecord_objectChars {ms : List (String × Scalar)} (hne : ms ≠ [])
    (h : ∀ m ∈ ms, Json.Plain m.1 ∧ m.2.Printable) (hnodup : (ms.map Prod.fst).Nodup) :
    IsRecord (String.ofList (objectChars ms ++ ['\n'])) (ms.map memberJson) := by
  refine ⟨⟨String.ofList (objectChars ms), ?_, ?_⟩, loads_objectChars hne h, ?_⟩
  · exact String.toList_injective (by simp)
  · rw [String.toList_ofList]
    unfold objectChars
    simp [newline_not_mem_membersChars h]
  · have hkeys : (ms.map memberJson).map Prod.fst = (ms.map Prod.fst).map PyString.text := by
      rw [List.map_map, List.map_map]
      rfl
    rw [hkeys]
    exact hnodup.map fun _ _ => PyString.text.inj

namespace Aead

/-- What a row of the AEAD program is printed from. -/
structure Row.Admissible (row : Row) : Prop where
  jsonl : row.jsonl = true
  architecture : Json.Plain row.architecture
  backend : Json.Plain row.backend
  version : Json.Plain row.version
  algorithm : row.algorithm ∈ algorithms
  operation : ∃ operation, row.operation = operationName operation
  sample : row.sample < 2 ^ 32
  rate : 0 ≤ row.mibPerSecond

def Row.members (row : Row) : List (String × Scalar) :=
  [("schema_version", .nat 1), ("architecture", .str row.architecture),
    ("backend", .str row.backend), ("version", .str row.version),
    ("algorithm", .str row.algorithm), ("operation", .str row.operation),
    ("message_bytes", .nat row.messageBytes.toNat), ("aad_bytes", .nat row.aadBytes.toNat),
    ("sample", .nat row.sample), ("iterations", .nat row.iterations.toNat),
    ("elapsed_ns", .nat row.elapsedNs.toNat), ("bytes", .nat row.bytes.toNat),
    ("mib_per_second", .fixed 3 (roundHalfEven (row.mibPerSecond * 10 ^ 3)))]

/-- The values of a row under the keys of its line. -/
def Row.fields (row : Row) : List (PyString × Json) :=
  [("schema_version", .int 1), ("architecture", .str row.architecture),
    ("backend", .str row.backend), ("version", .str row.version),
    ("algorithm", .str row.algorithm), ("operation", .str row.operation),
    ("message_bytes", .int row.messageBytes.toNat), ("aad_bytes", .int row.aadBytes.toNat),
    ("sample", .int row.sample), ("iterations", .int row.iterations.toNat),
    ("elapsed_ns", .int row.elapsedNs.toNat), ("bytes", .int row.bytes.toNat),
    ("mib_per_second", .float (threeDecimals row.mibPerSecond))]

set_option maxRecDepth 4000 in
theorem Row.json_eq {row : Row} (h : 0 ≤ row.mibPerSecond) :
    row.json = String.ofList (objectChars row.members ++ ['\n']) := by
  have hrate := toList_fixed_of_nonneg plainDigits 3 h
  have hone : Nat.toDigits 10 1 = ['1'] := by decide
  apply String.toList_injective
  unfold Row.json objectChars Row.members
  simp only [String.toList_append, hrate, membersChars, Scalar.chars,
    Nat.toString_eq_ofList_toDigits, String.toList_ofList, hone]
  simp only [String.reduceToList, List.append_assoc, List.cons_append, List.nil_append]

theorem Row.members_printable {row : Row} (h : row.Admissible) :
    ∀ m ∈ row.members, Json.Plain m.1 ∧ m.2.Printable := by
  have halg : ∀ algorithm ∈ algorithms, Json.Plain algorithm := by decide +kernel
  have hop : ∀ operation, Json.Plain (operationName operation) := by
    intro operation
    cases operation
    all_goals decide +kernel
  have hkeys : ∀ key ∈ row.members.map Prod.fst, Json.Plain key := by
    change ∀ key ∈ ["schema_version", "architecture", "backend", "version", "algorithm",
      "operation", "message_bytes", "aad_bytes", "sample", "iterations", "elapsed_ns", "bytes",
      "mib_per_second"], Json.Plain key
    decide +kernel
  obtain ⟨operation, ho⟩ := h.operation
  have hvalues : ∀ m ∈ row.members, m.2.Printable := by
    unfold Row.members
    simp only [List.forall_mem_cons, Scalar.printable_nat (UInt64.toNat_lt _), true_and]
    exact ⟨Scalar.printable_nat (by decide), h.architecture, h.backend, h.version,
      halg _ h.algorithm, ho ▸ hop operation, Scalar.printable_nat (lt_trans h.sample (by decide)),
      show 0 < 3 by decide, by simp⟩
  exact fun m hm => ⟨hkeys m.1 (List.mem_map_of_mem hm), hvalues m hm⟩

/-- The summary's view of a row. -/
def Row.read (row : Row) : Summary.Row where
  architecture := some (.str row.architecture)
  backend := some (.str row.backend)
  version := some (.str row.version)
  benchmark := none
  algorithm := some (.str row.algorithm)
  operation := some (.str row.operation)
  cipher := none
  messageBytes := some (.int row.messageBytes.toNat)
  mibPerSecond := some (threeDecimals row.mibPerSecond)
  handshakesPerSecond := none

theorem Row.ofJson_fields (row : Row) :
    Summary.Row.ofJson (.object row.fields) = some row.read := by
  simp [Summary.Row.ofJson, dictOf, labelField, rateField, Dict.get?_lasts, Row.fields, Row.read]

theorem Row.isRecord {row : Row} (h : row.Admissible) : IsRecord row.text row.fields := by
  have hfields : row.fields = row.members.map memberJson := rfl
  unfold Row.text
  rw [h.jsonl, if_pos rfl, Row.json_eq h.rate, hfields]
  refine isRecord_objectChars (List.cons_ne_nil _ _) (Row.members_printable h) ?_
  simp [Row.members]

/-- The key of a row's cell. -/
def Row.key (row : Row) : Key :=
  [.str row.algorithm, .str row.operation, .int row.messageBytes.toNat]

theorem Row.oneSample (row : Row) : OneSample primitive [handshake, transfer] row.read row.key
    (.str row.backend) (threeDecimals row.mibPerSecond) := by
  refine OfbBench.oneSample rfl ?_ rfl rfl rfl
  simp [handshake, transfer, Row.read]

end Aead

namespace Tls

/-- What a row of the TLS program is printed from. -/
structure Row.Admissible (row : Row) : Prop where
  jsonl : row.jsonl = true
  architecture : Json.Plain row.architecture
  backend : Json.Plain row.backend
  version : Json.Plain row.version
  cipher : row.cipher ∈ ciphers
  sample : row.sample < 2 ^ 32
  rate : 0 ≤ row.rate

/-- The members the first `printf` call prints. -/
def Row.headMembers (row : Row) : List (String × Scalar) :=
  [("schema_version", .nat 1), ("architecture", .str row.architecture),
    ("backend", .str row.backend), ("version", .str row.version),
    ("benchmark", .str ("tls-" ++ benchmarkName row.benchmark)), ("tls_version", .str "TLSv1.3"),
    ("cipher", .str row.cipher), ("message_bytes", .nat row.messageBytes.toNat),
    ("sample", .nat row.sample), ("iterations", .nat row.iterations.toNat),
    ("elapsed_ns", .nat row.elapsedNs.toNat)]

/-- The members the second one prints. -/
def Row.tailMembers (row : Row) : List (String × Scalar) :=
  let rate := .fixed 3 (roundHalfEven (row.rate * 10 ^ 3))
  match row.benchmark with
  | .handshake => [("handshakes_per_second", rate)]
  | .transfer => [("bytes", .nat row.bytes.toNat), ("mib_per_second", rate)]

/-- The values of a row under the keys of its line. -/
def Row.fields (row : Row) : List (PyString × Json) :=
  let head : List (PyString × Json) :=
    [("schema_version", .int 1), ("architecture", .str row.architecture),
      ("backend", .str row.backend), ("version", .str row.version),
      ("benchmark", .str ("tls-" ++ benchmarkName row.benchmark)), ("tls_version", .str "TLSv1.3"),
      ("cipher", .str row.cipher), ("message_bytes", .int row.messageBytes.toNat),
      ("sample", .int row.sample), ("iterations", .int row.iterations.toNat),
      ("elapsed_ns", .int row.elapsedNs.toNat)]
  let rate : Json := .float (threeDecimals row.rate)
  let tail : List (PyString × Json) :=
    match row.benchmark with
    | .handshake => [("handshakes_per_second", rate)]
    | .transfer => [("bytes", .int row.bytes.toNat), ("mib_per_second", rate)]
  head ++ tail

set_option maxRecDepth 4000 in
theorem Row.json_eq {row : Row} (h : 0 ≤ row.rate) :
    row.json = String.ofList (objectChars (row.headMembers ++ row.tailMembers) ++ ['\n']) := by
  have hrate := toList_fixed_of_nonneg plainDigits 3 h
  have hone : Nat.toDigits 10 1 = ['1'] := by decide
  apply String.toList_injective
  unfold Row.json Row.jsonHead Row.jsonTail objectChars Row.headMembers Row.tailMembers
  cases row.benchmark with
  | handshake =>
    simp only [String.toList_append, hrate, membersChars, Scalar.chars, benchmarkName,
      Nat.toString_eq_ofList_toDigits, String.toList_ofList, hone, List.cons_append,
      List.nil_append]
    simp only [String.reduceToList, List.append_assoc, List.cons_append, List.nil_append]
  | transfer =>
    simp only [String.toList_append, hrate, membersChars, Scalar.chars, benchmarkName,
      Nat.toString_eq_ofList_toDigits, String.toList_ofList, hone, List.cons_append,
      List.nil_append]
    simp only [String.reduceToList, List.append_assoc, List.cons_append, List.nil_append]

theorem Row.members_printable {row : Row} (h : row.Admissible) :
    ∀ m ∈ row.headMembers ++ row.tailMembers, Json.Plain m.1 ∧ m.2.Printable := by
  have hciphers : ∀ cipher ∈ ciphers, Json.Plain cipher := by decide +kernel
  have hbench : ∀ benchmark, Json.Plain ("tls-" ++ benchmarkName benchmark) := by
    intro benchmark
    cases benchmark
    all_goals decide +kernel
  have hhead : ∀ key ∈ row.headMembers.map Prod.fst, Json.Plain key := by
    change ∀ key ∈ ["schema_version", "architecture", "backend", "version", "benchmark",
      "tls_version", "cipher", "message_bytes", "sample", "iterations", "elapsed_ns"],
      Json.Plain key
    decide +kernel
  have htail : ∀ key ∈ row.tailMembers.map Prod.fst, Json.Plain key := by
    unfold Row.tailMembers
    cases row.benchmark with
    | handshake =>
      change ∀ key ∈ ["handshakes_per_second"], Json.Plain key
      decide +kernel
    | transfer =>
      change ∀ key ∈ ["bytes", "mib_per_second"], Json.Plain key
      decide +kernel
  have hversion : Json.Plain "TLSv1.3" := by decide +kernel
  have hheadValues : ∀ m ∈ row.headMembers, m.2.Printable := by
    unfold Row.headMembers
    simp only [List.forall_mem_cons, Scalar.printable_nat (UInt64.toNat_lt _), true_and]
    exact ⟨Scalar.printable_nat (by decide), h.architecture, h.backend, h.version,
      hbench row.benchmark, hversion, hciphers _ h.cipher,
      Scalar.printable_nat (lt_trans h.sample (by decide)), by simp⟩
  have htailValues : ∀ m ∈ row.tailMembers, m.2.Printable := by
    unfold Row.tailMembers
    cases row.benchmark with
    | handshake => simp [Scalar.Printable]
    | transfer =>
      simp only [List.forall_mem_cons, Scalar.printable_nat (UInt64.toNat_lt _), true_and]
      exact ⟨show 0 < 3 by decide, by simp⟩
  intro m hm
  rcases List.mem_append.1 hm with hm | hm
  · exact ⟨hhead m.1 (List.mem_map_of_mem hm), hheadValues m hm⟩
  · exact ⟨htail m.1 (List.mem_map_of_mem hm), htailValues m hm⟩

theorem Row.isRecord {row : Row} (h : row.Admissible) : IsRecord row.text row.fields := by
  have hfields : row.fields = (row.headMembers ++ row.tailMembers).map memberJson := by
    unfold Row.fields Row.headMembers Row.tailMembers
    cases row.benchmark with
    | handshake => rfl
    | transfer => rfl
  unfold Row.text
  rw [h.jsonl, if_pos rfl, Row.json_eq h.rate, hfields]
  refine isRecord_objectChars (List.cons_ne_nil _ _) (Row.members_printable h) ?_
  unfold Row.headMembers Row.tailMembers
  cases row.benchmark with
  | handshake => simp
  | transfer => simp

/-- The summary's view of a row. -/
def Row.read (row : Row) : Summary.Row where
  architecture := some (.str row.architecture)
  backend := some (.str row.backend)
  version := some (.str row.version)
  benchmark := some (.str ("tls-" ++ benchmarkName row.benchmark))
  algorithm := none
  operation := none
  cipher := some (.str row.cipher)
  messageBytes := some (.int row.messageBytes.toNat)
  mibPerSecond := if row.benchmark = .transfer then some (threeDecimals row.rate) else none
  handshakesPerSecond :=
    if row.benchmark = .handshake then some (threeDecimals row.rate) else none

theorem Row.ofJson_fields (row : Row) :
    Summary.Row.ofJson (.object row.fields) = some row.read := by
  unfold Row.fields Row.read
  cases row.benchmark with
  | handshake =>
    simp [Summary.Row.ofJson, dictOf, labelField, rateField, Dict.get?_lasts]
  | transfer =>
    simp [Summary.Row.ofJson, dictOf, labelField, rateField, Dict.get?_lasts]

/-- The kind that selects a row, and the key of its cell. -/
def Row.kind (row : Row) : Kind :=
  match row.benchmark with
  | .handshake => handshake
  | .transfer => transfer

def Row.otherKinds (row : Row) : List Kind :=
  match row.benchmark with
  | .handshake => [primitive, transfer]
  | .transfer => [primitive, handshake]

def Row.key (row : Row) : Key :=
  match row.benchmark with
  | .handshake => [.str row.cipher]
  | .transfer => [.str row.cipher, .int row.messageBytes.toNat]

theorem Row.oneSample (row : Row) : OneSample row.kind row.otherKinds row.read row.key
    (.str row.backend) (threeDecimals row.rate) := by
  unfold Row.kind Row.otherKinds Row.read Row.key
  cases row.benchmark with
  | handshake =>
    refine OfbBench.oneSample ?_ ?_ rfl rfl rfl
    · simp [handshake, benchmarkName]
    · simp [primitive, transfer, benchmarkName]
  | transfer =>
    refine OfbBench.oneSample ?_ ?_ rfl rfl rfl
    · simp [transfer, benchmarkName]
    · simp [primitive, handshake, benchmarkName]

end Tls

/-! ## The rows of a run -/

section Runs

variable {P R : Type}

theorem mem_rows {t : Trace (Driver P R)} {r : R} (h : r ∈ rows t) :
    ∃ u₁ u₂, t = u₁ ++ ⟨.printRow r, ()⟩ :: u₂ := by
  unfold rows at h
  obtain ⟨⟨call, resp⟩, he, hr⟩ := List.mem_filterMap.1 h
  cases call with
  | printRow r' =>
    obtain rfl : r' = r := Option.some.inj hr
    exact List.append_of_mem he
  | _ => exact absurd hr (by simp [rowOf])

/-- Each row of `t` is, as `ofCase` says, the next one of the case, and of the sample of the batch
right before it. -/
def RowsOf (counted : Bool) (messageSize : UInt64) (ofCase : ℕ → Sample → R → Prop)
    (t : Trace (Driver P R)) : Prop :=
  ∀ u₁ r u₂, t = u₁ ++ ⟨.printRow r, ()⟩ :: u₂ → ∃ u b N start stop sample,
    u₁ = u ++ batchTrace b N start stop ∧ Timed counted N messageSize start stop sample
      ∧ ofCase (rows u₁).length sample r

theorem caseWith_rowsOf {counted : Bool} {messageSize : UInt64} {row : ℕ → Sample → R} {rnd : ℚ → ℚ}
    {failed : Stage → Option Ptr → Prog (Driver P R) Int} {params : P} {start : Count}
    {targetNs iterations : UInt64} {samples : ℕ} {t : Trace (Driver P R)} {rc : Int}
    {ofCase : ℕ → Sample → R → Prop} (hf : Fails failed)
    (hrow : ∀ i sample, ofCase i sample (row i sample))
    (h : CaseOf rnd counted messageSize row failed params start targetNs iterations samples t rc) :
    RowsOf counted messageSize ofCase t := by
  intro u₁ r u₂ ht
  rcases caseWith_printed hf h with h0 | ⟨b, N, t₁, t₂, t₃, -, -, hp⟩
  · rw [ht, rows_append, rows_cons_row] at h0
    exact absurd h0 (List.append_ne_nil_of_right_ne_nil _ (List.cons_ne_nil _ _))
  · obtain ⟨u, s, e, sample, hu, hT, rfl⟩ := hp u₁ r u₂ ht
    rw [Nat.zero_add]
    exact ⟨u, b, N, s, e, sample, hu, hT, hrow _ _⟩

end Runs

theorem index_lt {t u₁ u₂ : Trace (Driver P R)} {r : R} {samples : ℕ}
    (ht : t = u₁ ++ ⟨.printRow r, ()⟩ :: u₂) (h : (rows t).length ≤ samples) :
    (rows u₁).length < samples := by
  rw [ht, rows_append, rows_cons_row, List.length_append, List.length_cons] at h
  omega

/-- The values a row of an AEAD case is printed from: the build's, the case's and the sample's. -/
structure Aead.Row.OfCase (build : Build) (options : Options) (algorithm : String)
    (operation : Operation) (messageSize : UInt64) (i : ℕ) (sample : Sample) (row : Row) :
    Prop where
  architecture : row.architecture = build.architecture
  backend : row.backend = build.backendName
  version : row.version = build.opensslVersion
  algorithm : row.algorithm = algorithm
  operation : row.operation = operationName operation
  messageBytes : row.messageBytes = messageSize
  aadBytes : row.aadBytes = options.aadSize
  index : row.sample = i
  iterations : row.iterations = sample.iterations
  elapsedNs : row.elapsedNs = sample.elapsedNs
  bytes : row.bytes = sample.bytes

/-- The values a row of a TLS case is printed from. -/
structure Tls.Row.OfCase (build : Build) (cipher : String) (benchmark : Benchmark)
    (messageSize : UInt64) (i : ℕ) (sample : Sample) (row : Row) : Prop where
  architecture : row.architecture = build.architecture
  backend : row.backend = build.backendName
  version : row.version = build.opensslVersion
  benchmark : row.benchmark = benchmark
  cipher : row.cipher = cipher
  messageBytes : row.messageBytes = messageSize
  index : row.sample = i
  iterations : row.iterations = sample.iterations
  elapsedNs : row.elapsedNs = sample.elapsedNs
  bytes : row.bytes = sample.bytes

/-- The encoder of either program and the summary agree: every admissible row is printed as a record
of its values, which the summary reads as one sample of one cell, and the rows a run prints are of
the values of the case and of the batches before them, and admissible when the build's labels are
plain, the algorithm or cipher is one of the table's and the rate is not negative. -/
theorem json_agrees :
    (∀ row : Aead.Row, row.Admissible → IsRecord row.text row.fields ∧
      Summary.Row.ofJson (.object row.fields) = some row.read ∧
      OneSample primitive [handshake, transfer] row.read row.key (.str row.backend)
        (threeDecimals row.mibPerSecond)) ∧
    (∀ row : Tls.Row, row.Admissible → IsRecord row.text row.fields ∧
      Summary.Row.ofJson (.object row.fields) = some row.read ∧
      OneSample row.kind row.otherKinds row.read row.key (.str row.backend)
        (threeDecimals row.rate)) ∧
    ∀ (rnd : ℚ → ℚ) (build : Build) (messageSize : UInt64), Json.Plain build.architecture →
      Json.Plain build.backendName → Json.Plain build.opensslVersion →
      (∀ (options : Aead.Options) algorithm operation t rc, options.format = "jsonl" →
        algorithm ∈ Aead.algorithms →
        (Aead.runCase rnd build options algorithm operation messageSize).Runs t rc →
        RowsOf true messageSize (Aead.Row.OfCase build options algorithm operation messageSize) t
          ∧ ∀ row ∈ rows t, 0 ≤ row.mibPerSecond → row.Admissible) ∧
      ∀ (options : Tls.Options) cipher benchmark t rc, options.format = "jsonl" →
        cipher ∈ Tls.ciphers →
        (Tls.runCase rnd build options cipher benchmark messageSize).Runs t rc →
        RowsOf (benchmark = .transfer) messageSize
            (Tls.Row.OfCase build cipher benchmark messageSize) t
          ∧ ∀ row ∈ rows t, 0 ≤ row.rate → row.Admissible := by
  refine ⟨fun row h => ⟨row.isRecord h, row.ofJson_fields, row.oneSample⟩,
    fun row h => ⟨row.isRecord h, row.ofJson_fields, row.oneSample⟩,
    fun rnd build messageSize ha hb hv => ⟨?_, ?_⟩⟩
  · intro options algorithm operation t rc hformat halg h
    have hrows : RowsOf true messageSize (fun i sample row =>
        row = Aead.row rnd build options algorithm operation messageSize i sample) t :=
      caseWith_rowsOf (aead_fails algorithm operation messageSize) (fun _ _ => rfl)
        (runs_caseWith h)
    refine ⟨fun u₁ row u₂ ht => ?_, fun row hrow hrate => ?_⟩
    · obtain ⟨u, b, N, start, stop, sample, hu, hT, rfl⟩ := hrows u₁ row u₂ ht
      exact ⟨u, b, N, start, stop, sample, hu, hT, rfl, rfl, rfl, rfl, rfl, rfl, rfl, rfl, rfl, rfl,
        rfl⟩
    · obtain ⟨u₁, u₂, ht⟩ := mem_rows hrow
      obtain ⟨-, -, -, -, -, sample, -, -, rfl⟩ := hrows u₁ row u₂ ht
      have hindex := index_lt ht (caseWith_length_rows_le
        (aead_fails algorithm operation messageSize) Aead.Row.sample (fun _ _ => rfl)
        (runs_caseWith h))
      exact ⟨by simp [Aead.row, hformat], ha, hb, hv, halg, ⟨operation, rfl⟩,
        lt_trans hindex options.samples.toNat_lt, hrate⟩
  · intro options cipher benchmark t rc hformat hcipher h
    have hrows : RowsOf (benchmark = .transfer) messageSize (fun i sample row =>
        row = Tls.row rnd build options cipher benchmark messageSize i sample) t :=
      caseWith_rowsOf (tls_fails cipher benchmark messageSize) (fun _ _ => rfl) (runs_caseWith h)
    refine ⟨fun u₁ row u₂ ht => ?_, fun row hrow hrate => ?_⟩
    · obtain ⟨u, b, N, start, stop, sample, hu, hT, rfl⟩ := hrows u₁ row u₂ ht
      exact ⟨u, b, N, start, stop, sample, hu, hT, rfl, rfl, rfl, rfl, rfl, rfl, rfl, rfl, rfl, rfl⟩
    · obtain ⟨u₁, u₂, ht⟩ := mem_rows hrow
      obtain ⟨-, -, -, -, -, sample, -, -, rfl⟩ := hrows u₁ row u₂ ht
      have hindex := index_lt ht (caseWith_length_rows_le
        (tls_fails cipher benchmark messageSize) Tls.Row.sample (fun _ _ => rfl) (runs_caseWith h))
      exact ⟨by simp [Tls.row, hformat], ha, hb, hv, hcipher,
        lt_trans hindex options.samples.toNat_lt, hrate⟩

section Witness

/-- The row of `handshakeTrace`. -/
def handshakeRow : Tls.Row :=
  Tls.row id handshakeBuild handshakeOptions "TLS_AES_128_GCM_SHA256" .handshake 0 0
    (measured false 10 0 400000 1400000)

/-- One sample of sealing 16384 bytes in 1562.5 ns, to a millisecond. -/
def oneSealOptions : Aead.Options := ⟨"AES-128-GCM", "seal", "jsonl", 16384, 13, 1, 1000000, true⟩

def sealRow : Aead.Row :=
  Aead.row id handshakeBuild oneSealOptions "AES-128-GCM" .seal 16384 0
    (measured true 640 16384 400000 1400000)

def sealTrace : Trace Aead.Bench :=
  ⟨.backendCreate ⟨"AES-128-GCM", .seal, 16384, 13⟩, some 0⟩ :: ⟨.backendVerify 0, (0 : Int)⟩ ::
    (twoBatches 64 ++ (batchTrace 0 640 400000 1400000 ++
      [⟨.printRow sealRow, ()⟩, ⟨.backendDestroy (some 0), ()⟩]))

theorem runs_sealTrace :
    (Aead.runCase id handshakeBuild oneSealOptions "AES-128-GCM" .seal 16384).Runs sealTrace 0 := by
  unfold Aead.runCase caseWith
  rw [runs_backendCreate_bind]
  refine ⟨some 0, _, rfl, ?_⟩
  simp only []
  rw [runs_backendVerify_bind]
  refine ⟨0, _, rfl, ?_⟩
  rw [if_neg (by decide)]
  refine Prog.runs_bind.2 ⟨_, _, (0, 640), rfl, runs_calibrate_seal, ?_⟩
  simp only [ne_eq, not_true_eq_false, if_false]
  refine Prog.runs_bind.2 ⟨_, _, (0, measured true 640 16384 400000 1400000), rfl,
    runs_timeBatch_ok.2 ⟨400000, 1400000, rfl, by decide, by decide, by decide, rfl⟩, ?_⟩
  exact ⟨(), _, rfl, (), _, rfl, rfl, rfl⟩

/-- A row of a run of each program. -/
theorem json_agrees_handshake :
    (handshakeRow ∈ rows handshakeTrace ∧ IsRecord handshakeRow.text handshakeRow.fields ∧
      OneSample handshake [primitive, transfer] handshakeRow.read
        [.str "TLS_AES_128_GCM_SHA256"] (.str "openssl") (threeDecimals handshakeRow.rate)) ∧
    sealRow ∈ rows sealTrace ∧ IsRecord sealRow.text sealRow.fields ∧
      OneSample primitive [handshake, transfer] sealRow.read
        [.str "AES-128-GCM", .str "seal", .int 16384] (.str "openssl")
        (threeDecimals sealRow.mibPerSecond) := by
  have hplain : ∀ text ∈ ["x86_64", "openssl", "OpenSSL 3.5.7"], Json.Plain text := by
    decide +kernel
  have hrows : rows handshakeTrace = [handshakeRow] := rfl
  have hrows' : rows sealTrace = [sealRow] := rfl
  have hmem : handshakeRow ∈ rows handshakeTrace := by rw [hrows]; exact List.mem_singleton_self _
  have hmem' : sealRow ∈ rows sealTrace := by rw [hrows']; exact List.mem_singleton_self _
  have hrate : 0 ≤ handshakeRow.rate := by
    unfold handshakeRow Tls.row
    simp only [handshakesPerSecond, id]
    positivity
  have hrate' : 0 ≤ sealRow.mibPerSecond := by
    unfold sealRow Aead.row
    simp only [mibPerSecond, id]
    positivity
  have hruns := json_agrees.2.2 id handshakeBuild 0 (hplain _ (by decide)) (hplain _ (by decide))
    (hplain _ (by decide))
  have hruns' := json_agrees.2.2 id handshakeBuild 16384 (hplain _ (by decide))
    (hplain _ (by decide)) (hplain _ (by decide))
  have hadm : handshakeRow.Admissible :=
    (hruns.2 handshakeOptions "TLS_AES_128_GCM_SHA256" .handshake handshakeTrace 0 rfl (by decide)
      runs_handshakeTrace).2 handshakeRow hmem hrate
  have hadm' : sealRow.Admissible :=
    (hruns'.1 oneSealOptions "AES-128-GCM" .seal sealTrace 0 rfl (by decide) runs_sealTrace).2
      sealRow hmem' hrate'
  have hrecord := json_agrees.2.1 handshakeRow hadm
  have hrecord' := json_agrees.1 sealRow hadm'
  exact ⟨⟨hmem, hrecord.1, hrecord.2.2⟩, hmem', hrecord'.1, hrecord'.2.2⟩

end Witness

end OfbBench
