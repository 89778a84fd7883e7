import OfbBench.Lib.Dict
import OfbBench.Lib.Json

/-!
# The benchmark summary

`scripts/summarize_results.py`: the Markdown document `render` makes of the rows of the benchmark
programs. Label and key fields hold strings or integers, rates are rationals. A run that raises a
`KeyError` or a `TypeError` is an `error`.

`sorted` raises on a list if and only if two of its elements cannot be compared: the order of two
neighbours in its result is known from comparing them, and along a chain of strictly increasing
tuples whose neighbours can be compared, all can.
-/

namespace OfbBench.Summary

inductive PyError
  | keyError
  | typeError
  deriving DecidableEq, Repr

/-- The value of a label or key field. -/
inductive Label
  | str (s : String)
  | int (i : ℤ)
  deriving DecidableEq, Repr

/-- `str(value)`. -/
def Label.text : Label → String
  | .str s => s
  | .int i => toString i

/-- Whether `<` is defined between two labels. -/
def Label.comparable : Label → Label → Bool
  | .str _, .str _ => true
  | .int _, .int _ => true
  | _, _ => false

def Label.toSum : Label → ℤ ⊕ₗ String
  | .int i => toLex (.inl i)
  | .str s => toLex (.inr s)

theorem Label.toSum_injective : Function.Injective Label.toSum := by
  intro a b h
  cases a <;> cases b <;> simp_all [Label.toSum]

/-- The order of labels, which is the one of `<` where that is defined. -/
instance : LinearOrder Label := LinearOrder.lift' Label.toSum Label.toSum_injective

/-- The tuples of key fields. -/
abbrev Key := List Label

/-- Whether `<` is defined between two tuples: it compares the first elements that differ. -/
def Key.comparable : Key → Key → Bool
  | a :: as, b :: bs => if a = b then Key.comparable as bs else a.comparable b
  | _, _ => true

theorem Label.comparable_symm {a b : Label} (h : a.comparable b = true) :
    b.comparable a = true := by
  cases a <;> cases b <;> simp_all [Label.comparable]

theorem Key.comparable_symm {as bs : Key} (h : Key.comparable as bs = true) :
    Key.comparable bs as = true := by
  induction as generalizing bs with
  | nil => cases bs <;> rfl
  | cons a as ih =>
    cases bs with
    | nil => rfl
    | cons b bs =>
      unfold Key.comparable at h ⊢
      by_cases hab : a = b
      · rw [if_pos hab] at h
        rw [if_pos hab.symm]
        exact ih h
      · rw [if_neg hab] at h
        rw [if_neg (Ne.symm hab)]
        exact Label.comparable_symm h

/-- The fields of a row that the summary reads. -/
structure Row where
  architecture : Option Label
  backend : Option Label
  version : Option Label
  benchmark : Option Label
  algorithm : Option Label
  operation : Option Label
  cipher : Option Label
  messageBytes : Option Label
  mibPerSecond : Option ℚ
  handshakesPerSecond : Option ℚ
  deriving DecidableEq

/-! ## Reading a decoded line -/

/-- The dictionary of an object: of a repeated key the last value counts. -/
def dictOf (members : List (PyString × Json)) : Dict PyString Json :=
  Dict.lasts Prod.fst Prod.snd members

/-- A label or key field, if there is one. Only integers and strings of characters are modelled. -/
def labelField (name : String) (fields : Dict PyString Json) : Option (Option Label) :=
  match fields.get? name with
  | none => some none
  | some (.str (.text text)) => some (some (.str text))
  | some (.int i) => some (some (.int i))
  | some _ => none

/-- `float(row[name])`, if there is such a field. Only numbers are modelled. -/
def rateField (name : String) (fields : Dict PyString Json) : Option (Option ℚ) :=
  match fields.get? name with
  | none => some none
  | some (.int i) => some (some i)
  | some (.float x) => some (some x)
  | some _ => none

/-- The fields of a decoded line. -/
def Row.ofJson : Json → Option Row
  | .object members => do
    let fields := dictOf members
    let architecture ← labelField "architecture" fields
    let backend ← labelField "backend" fields
    let version ← labelField "version" fields
    let benchmark ← labelField "benchmark" fields
    let algorithm ← labelField "algorithm" fields
    let operation ← labelField "operation" fields
    let cipher ← labelField "cipher" fields
    let messageBytes ← labelField "message_bytes" fields
    let mibPerSecond ← rateField "mib_per_second" fields
    let handshakesPerSecond ← rateField "handshakes_per_second" fields
    pure ⟨architecture, backend, version, benchmark, algorithm, operation, cipher, messageBytes,
      mibPerSecond, handshakesPerSecond⟩
  | _ => none

/-- `row[field]`. -/
def require {α : Type} : Option α → Except PyError α
  | some value => .ok value
  | none => .error .keyError

def pySorted {α : Type} (comparable : α → α → Bool) (le : α → α → Prop) [DecidableRel le]
    (xs : List α) : Except PyError (List α) :=
  match sorted comparable le xs with
  | some ys => .ok ys
  | none => .error .typeError

/-- `str(value).replace("|", "\\|")`, on the text of the value. -/
def escape (text : String) : String :=
  String.ofList (text.toList.flatMap fun c => if c = '|' then ['\\', '|'] else [c])

def formatRate (value : ℚ) : String := fixed groupedDigits 2 value

def displayBackend (backend : Label) : String :=
  if backend = .str "openssl" then "OpenSSL"
  else if backend = .str "libressl" then "LibreSSL baseline"
  else if backend = .str "libressl-patched" then "LibreSSL patched"
  else backend.text

/-! ## Orders -/

def backendRank (name : Label) : ℕ :=
  if name = .str "openssl" then 0
  else if name = .str "libressl" then 1
  else if name = .str "libressl-patched" then 2
  else 99

def architectureRank (name : Label) : ℕ :=
  if name = .str "x86_64" then 0
  else if name = .str "arm64" then 1
  else 99

/-- `sorted(names, key=lambda name: (rank(name), name))`. -/
def sortByRank (rank : Label → ℕ) (names : List Label) : Except PyError (List Label) :=
  pySorted (fun a b => rank a ≠ rank b ∨ a.comparable b)
    (fun a b => toLex (rank a, a) ≤ toLex (rank b, b)) names

def backendOrder (backends : List Label) : Except PyError (List Label) :=
  sortByRank backendRank backends

def architectureOrder (architectures : List Label) : Except PyError (List Label) :=
  sortByRank architectureRank architectures

/-! ## Cells -/

def dash : String := "—"

/-- `ratio_cell` and `patched_ratio_cell`: the quotient of the values of `numerator` and of the
baseline. -/
def ratioCellOf (numerator : String) (digits : ℕ) (values : Dict Label ℚ) : String :=
  match values.get? (.str numerator), values.get? (.str "libressl") with
  | some value, some baseline =>
    if baseline = 0 then dash else fixed plainDigits digits (value / baseline) ++ "×"
  | _, _ => dash

def ratioCell : Dict Label ℚ → String := ratioCellOf "openssl" 2

def patchedRatioCell : Dict Label ℚ → String := ratioCellOf "libressl-patched" 3

/-- What `append_ratio_headings` appends. -/
def ratioHeadings (backends : List Label) : List String :=
  (if .str "openssl" ∈ backends ∧ .str "libressl" ∈ backends then ["OpenSSL / baseline"] else [])
  ++ if .str "libressl-patched" ∈ backends ∧ .str "libressl" ∈ backends then
    ["Patched / baseline"] else []

/-- What `append_ratios` appends. -/
def ratios (values : Dict Label ℚ) (backends : List Label) : List String :=
  (if .str "openssl" ∈ backends ∧ .str "libressl" ∈ backends then [ratioCell values] else [])
  ++ if .str "libressl-patched" ∈ backends ∧ .str "libressl" ∈ backends then
    [patchedRatioCell values] else []

/-- `"| " + " | ".join(cells) + " |"`. -/
def tableLine (cells : List String) : String := "| " ++ " | ".intercalate cells ++ " |"

/-- What `append_table` appends. -/
def tableLines (headings : List String) (rows : List (List String)) : List String :=
  [tableLine headings, tableLine (headings.map fun _ => "---")]
  ++ rows.map (fun row => tableLine (row.map escape)) ++ [""]

/-! ## Tables -/

/-- What the three measurement tables differ in. -/
structure Kind where
  title : String
  selects : Row → Bool
  keyFields : List (Row → Option Label)
  metric : Row → Option ℚ
  keyHeadings : List String
  unit : String

def primitive : Kind where
  title := "AEAD primitive throughput"
  selects row := row.algorithm.isSome
  keyFields := [Row.algorithm, Row.operation, Row.messageBytes]
  metric := Row.mibPerSecond
  keyHeadings := ["Algorithm", "Operation", "Bytes"]
  unit := " MiB/s"

def handshake : Kind where
  title := "TLS 1.3 full handshake"
  selects row := row.benchmark = some (.str "tls-handshake")
  keyFields := [Row.cipher]
  metric := Row.handshakesPerSecond
  keyHeadings := ["Cipher"]
  unit := " handshakes/s"

def transfer : Kind where
  title := "TLS 1.3 application-data throughput"
  selects row := row.benchmark = some (.str "tls-transfer")
  keyFields := [Row.cipher, Row.messageBytes]
  metric := Row.mibPerSecond
  keyHeadings := ["Cipher", "Bytes"]
  unit := " MiB/s"

section Aggregate

variable (keyFields : List (Row → Option Label)) (metric : Row → Option ℚ)

/-- The key, the backend and the sample of each row that has the metric. -/
def measurements : List Row → Except PyError (List ((Key × Label) × ℚ))
  | [] => pure []
  | row :: rows =>
    match metric row with
    | none => measurements rows
    | some sample => do
      let key ← keyFields.mapM fun field => require (field row)
      let backend ← require row.backend
      let rest ← measurements rows
      pure (((key, backend), sample) :: rest)

/-- `values[(key, backend)].append(sample)` for each of them. -/
def collect (entries : List ((Key × Label) × ℚ)) : Dict (Key × Label) (List ℚ) :=
  Dict.groups Prod.fst Prod.snd entries

/-- `result[key][backend] = statistics.median(samples)` for each entry of the dictionary. -/
def medians (values : Dict (Key × Label) (List ℚ)) : Dict Key (Dict Label ℚ) :=
  Dict.nested median values.entries

def aggregate (rows : List Row) : Except PyError (Dict Key (Dict Label ℚ)) := do
  let entries ← measurements keyFields metric rows
  pure (medians (collect entries))

end Aggregate

structure Table where
  headings : List String
  rows : List (List String)
  deriving DecidableEq, Repr

def Kind.headings (kind : Kind) (backends : List Label) : List String :=
  kind.keyHeadings ++ backends.map (fun backend => displayBackend backend ++ kind.unit)
  ++ ratioHeadings backends

/-- The row of `key`, whose medians are `values`. -/
def tableRow (key : Key) (values : Dict Label ℚ) (backends : List Label) : List String :=
  key.map Label.text
  ++ backends.map (fun backend => match values.get? backend with
    | some value => formatRate value
    | none => dash)
  ++ ratios values backends

/-- The table of the rows of a kind. -/
def Kind.table (kind : Kind) (backends : List Label) (rows : List Row) :
    Except PyError Table := do
  let data ← aggregate kind.keyFields kind.metric rows
  let keys ← pySorted Key.comparable (· ≤ ·) data.keys
  pure ⟨kind.headings backends,
    keys.map fun key => tableRow key ((data.get? key).getD .empty) backends⟩

/-- The lines of a measurement table and its title; there are none without rows of the kind. -/
def Kind.lines (kind : Kind) (backends : List Label) (rows : List Row) :
    Except PyError (List String) :=
  if rows.filter kind.selects = [] then pure []
  else do
    let table ← kind.table backends (rows.filter kind.selects)
    pure (["### " ++ kind.title, ""] ++ tableLines table.headings table.rows)

/-- `row.get("version", "unknown")`. -/
def Row.versionName (row : Row) : Label := row.version.getD (.str "unknown")

/-- `versions`: the version of the last row of each backend. -/
def versions (rows : List Row) : Dict (Option Label) Label :=
  Dict.lasts Row.backend Row.versionName rows

/-- The lines of the version table. -/
def versionLines (backends : List Label) (rows : List Row) : List String :=
  tableLines ["Backend", "Version"] (backends.map fun backend =>
    [displayBackend backend, (((versions rows).get? (some backend)).getD (.str "")).text])

def renderArchitecture (rows : List Row) (architecture : Label) :
    Except PyError (List String) := do
  let names ← rows.mapM fun row => require row.backend
  let backends ← backendOrder names.dedup
  let primitiveLines ← primitive.lines backends rows
  let handshakeLines ← handshake.lines backends rows
  let transferLines ← transfer.lines backends rows
  pure (["## Architecture: `" ++ architecture.text ++ "`", ""] ++ versionLines backends rows
    ++ primitiveLines ++ handshakeLines ++ transferLines)

/-! ## The document -/

/-- White space as `str.isspace` has it. -/
def isPySpace (c : Char) : Bool :=
  let n := c.toNat
  (9 ≤ n ∧ n ≤ 13) ∨ (28 ≤ n ∧ n ≤ 32) ∨ n = 0x85 ∨ n = 0xa0 ∨ n = 0x1680
    ∨ (0x2000 ≤ n ∧ n ≤ 0x200a) ∨ n = 0x2028 ∨ n = 0x2029 ∨ n = 0x202f ∨ n = 0x205f ∨ n = 0x3000

def rstrip (text : String) : String :=
  String.ofList (text.toList.reverse.dropWhile isPySpace).reverse

def header (title : String) : List String :=
  ["# " ++ title, "",
    "> Values are medians of the raw samples. Higher is better.",
    "> Compare backends within one architecture; runner hardware differs across architectures.",
    "> GitHub-hosted runner performance can vary between workflow runs.",
    ""]

/-- `row.get("architecture", "unknown")`. -/
def Row.architectureName (row : Row) : Label := row.architecture.getD (.str "unknown")

def byArchitecture (rows : List Row) : Dict Label (List Row) :=
  Dict.groups Row.architectureName id rows

def document (lines : List String) : String := rstrip ("\n".intercalate lines) ++ "\n"

def render (rows : List Row) (title : String) : Except PyError String := do
  let architectures ← architectureOrder (byArchitecture rows).keys
  let sections ← architectures.mapM fun architecture =>
    renderArchitecture (((byArchitecture rows).get? architecture).getD []) architecture
  pure (document (header title ++ sections.flatten))

end OfbBench.Summary
