import OfbBench.Lib.Python
import OfbBench.Lib.Regex
import OfbBench.Summary

/-!
# The profile report

`scripts/summarize_profiles.py`: the Markdown document `render` makes of the counters and hotspots
that `scripts/profile_aead.sh` records, one block a stat file. `str.upper` is the parameter `upper`.

What the files hold is the state `Files`; a stat file holds the rows `csv.reader` yields for it, and
the other two their decoded texts.
-/

namespace OfbBench.Profiles

open Summary (isPySpace document)

/-- A path: its text up to the last component, and that component. -/
structure Path where
  parent : String
  name : String
  deriving DecidableEq, Repr

def Path.text (path : Path) : String := path.parent ++ path.name

def Path.withName (path : Path) (name : String) : Path := { path with name := name }

structure Files where
  /-- What `rglob("*.stat.csv")` yields for a directory. -/
  listing : Path → Option (List Path)
  rows : Path → Except Raised (List (List String))
  mode : Path → Except Raised String
  report : Path → Except Raised String

/-! ## File names -/

def statSuffix : String := ".stat.csv"

/-- `name[:-len(".stat.csv")]`. -/
def stemOf (name : String) : String :=
  String.ofList (name.toList.take (name.length - statSuffix.length))

/-- `.` -/
def dot (c : Char) : Bool := c ≠ '\n'

def separator : Regex := .lit ['_', '_']

def casePattern : Regex :=
  .seq (.capture "backend" (.plus dot)) <| .seq separator <|
  .seq (.capture "architecture" (.plus dot)) <| .seq separator <|
  .seq (.capture "algorithm" (.plus dot)) <| .seq separator <|
  .seq (.capture "operation" (.alt (.lit "seal".toList) (.lit "open".toList))) <| .seq separator <|
  .seq (.capture "size" (.plus isPyDigit)) .atEnd

structure Case where
  backend : String
  architecture : String
  algorithm : String
  operation : String
  size : ℕ
  deriving DecidableEq, Repr

/-- The case of a match. -/
def Case.ofGroups (captures : Regex.Captures) : Case :=
  let group (name : String) : List Char := (Regex.group name captures).getD []
  { backend := String.ofList (group "backend")
    architecture := String.ofList (group "architecture")
    algorithm := String.ofList (group "algorithm")
    operation := String.ofList (group "operation")
    size := pyInt (group "size") }

def parseCase (path : Path) : Except Raised Case :=
  match casePattern.first (stemOf path.name).toList with
  | some captures => .ok (Case.ofGroups captures)
  | none => .error (.valueError ("unexpected profile filename: " ++ path.text))

/-- `stem` of `scripts/profile_aead.sh`, the algorithm and the size left open. -/
def stem (backend architecture algorithm operation : String) (messageSize : ℕ) : String :=
  backend ++ "__" ++ architecture ++ "__" ++ algorithm ++ "__" ++ operation ++ "__"
    ++ toString messageSize

/-! ## Reading the files -/

def strip (text : List Char) : List Char :=
  ((text.dropWhile isPySpace).reverse.dropWhile isPySpace).reverse

/-- `float(text)`, for a text without white space at its ends. -/
def float (text : List Char) : Except Raised PyFloat :=
  match pyFloat text with
  | some x => .ok x
  | none => .error (.valueError ("could not convert string to float: " ++ String.ofList text))

def parseNumber (text : String) : Option PyFloat :=
  match float (strip text.toList) with
  | .ok x => some x
  | .error _ => none

/-- What a row of a stat file adds to the counters. -/
def statEntry : List String → Option (String × PyFloat)
  | valueText :: _ :: eventText :: _ =>
    if (valueText.toList.dropWhile isPySpace).head? = some '#' then none
    else
      let event := String.ofList (strip eventText.toList)
      match parseNumber valueText with
      | some value => if event = "" then none else some (event, value)
      | none => none
  | _ => none

def parseStat (rows : List (List String)) : Dict String PyFloat :=
  Dict.lasts Prod.fst Prod.snd (rows.filterMap statEntry)

def hotspotPattern : Regex :=
  .seq (.star isPySpace) <|
  .seq (.capture "1" (.seq (.plus Char.isDigit) (.opt (.seq (.lit ['.']) (.plus Char.isDigit))))) <|
  .seq (.lit ['%']) <| .seq (.plus isPySpace) <|
  .seq (.capture "2" (.plusLazy dot)) <| .seq (.star isPySpace) .atEnd

/-- What a line of a report adds to the hotspots. -/
def hotspotOf (line : List Char) : Except Raised (Option (PyFloat × String)) :=
  match hotspotPattern.first line with
  | none => pure none
  | some captures => do
    let percent ← float ((Regex.group "1" captures).getD [])
    pure (some (percent, String.ofList ((Regex.group "2" captures).getD [])))

def parseHotspots (limit : ℕ) (report : String) : Except Raised (List (PyFloat × String)) := do
  let hotspots ← (splitLines (universalNewlines report.toList)).mapM hotspotOf
  pure ((hotspots.filterMap id).take limit)

/-! ## The block of a case -/

def escape (text : String) : String := Summary.escape text

def formatCounter : Option PyFloat → String
  | none => "—"
  | some value =>
    if value.absAtLeast 1000 then value.format groupedDigits 0 else value.format groupedDigits 2

/-- `instructions / cycles if cycles else None`. -/
def instructionsPerCycle (counters : Dict String PyFloat) : Except Raised (Option PyFloat) :=
  match counters.get? "cycles" with
  | none => pure none
  | some cycles =>
    if cycles.truthy then
      match counters.get? "instructions" with
      | none => .error .typeError
      | some instructions => do
        let ipc ← instructions.div cycles
        pure (some ipc)
    else pure none

def counterRows (counters : Dict String PyFloat) (ipc : Option PyFloat) :
    List (String × Option PyFloat) :=
  [("Cycles", counters.get? "cycles"),
    ("Instructions", counters.get? "instructions"),
    ("Instructions/cycle", ipc),
    ("Branches", counters.get? "branches"),
    ("Branch misses", counters.get? "branch-misses"),
    ("Cache references", counters.get? "cache-references"),
    ("Cache misses", counters.get? "cache-misses"),
    ("Task clock (ms)", counters.get? "task-clock"),
    ("CPU clock (ms)", counters.get? "cpu-clock")]

def counterLine (name : String) (value : PyFloat) : String :=
  "| " ++ name ++ " | " ++ formatCounter (some value) ++ " |"

def counterLines (rows : List (String × Option PyFloat)) : List String :=
  ["| Counter | Value |", "| --- | ---: |"]
  ++ rows.filterMap (fun row => row.2.map (counterLine row.1)) ++ [""]

def hotspotLine (hotspot : PyFloat × String) : Except Raised String := do
  let share ← hotspot.1.div (.finite false 5)
  let count ← share.ceil
  let blocks := String.ofList (List.replicate (max 1 (min 20 count)).toNat '█')
  pure ("| `" ++ padRight 20 blocks ++ "` " ++ padLeft 5 (hotspot.1.format plainDigits 1)
    ++ "% | `" ++ escape hotspot.2 ++ "` |")

def hotspotLines (hotspots : List (PyFloat × String)) : Except Raised (List String) := do
  let rows ← if hotspots = [] then pure ["| — | No samples reported |"]
    else hotspots.mapM hotspotLine
  pure (["| Hotspot share | Symbol / object |", "| --- | --- |"] ++ rows ++ [""])

section Render

variable (upper : String → String) (files : Files)

def caseHeading (case : Case) : String :=
  "#### " ++ upper case.algorithm ++ " " ++ case.operation ++ " — " ++ toString case.size
    ++ " bytes"

/-- The lines `render_case` appends. -/
def renderCase (statPath : Path) : Except Raised (List String) := do
  let case ← parseCase statPath
  let mode ← files.mode (statPath.withName (stemOf statPath.name ++ ".mode"))
  let rows ← files.rows statPath
  let report ← files.report (statPath.withName (stemOf statPath.name ++ ".report.txt"))
  let hotspots ← parseHotspots 10 report
  let ipc ← instructionsPerCycle (parseStat rows)
  let hotspotRows ← hotspotLines hotspots
  let modeText := String.ofList (strip (universalNewlines mode.toList))
  pure ([caseHeading upper case, "", "Counter mode: `" ++ modeText ++ "`", ""]
    ++ counterLines (counterRows (parseStat rows) ipc) ++ hotspotRows)

/-! ## The document -/

def architectureRank (name : String) : ℕ :=
  if name = "x86_64" then 0
  else if name = "arm64" then 1
  else 99

def architectureOrder (architectures : List String) : List String :=
  architectures.dedup.insertionSort fun a b =>
    toLex (architectureRank a, a) ≤ toLex (architectureRank b, b)

def backendOrder (backends : List String) : List String := backends.dedup.insertionSort (· ≤ ·)

/-- `(case["operation"], case["size"])`. -/
def Case.sortKey (case : Case) : String ×ₗ ℕ := toLex (case.operation, case.size)

def selected (cases : List (Case × Path)) (architecture backend : String) : List (Case × Path) :=
  cases.filter fun item => item.1.architecture = architecture ∧ item.1.backend = backend

def sortCases (items : List (Case × Path)) : List (Case × Path) :=
  items.insertionSort fun a b => a.1.sortKey ≤ b.1.sortKey

def renderBackend (cases : List (Case × Path)) (architecture backend : String) :
    Except Raised (List String) := do
  let blocks ← (sortCases (selected cases architecture backend)).mapM fun item =>
    renderCase upper files item.2
  pure (["### Backend: `" ++ backend ++ "`", ""] ++ blocks.flatten)

/-- The backends of an architecture. -/
def backendsOf (cases : List (Case × Path)) (architecture : String) : List String :=
  backendOrder ((cases.filter (·.1.architecture = architecture)).map (·.1.backend))

def renderArchitecture (cases : List (Case × Path)) (architecture : String) :
    Except Raised (List String) := do
  let blocks ← (backendsOf cases architecture).mapM (renderBackend upper files cases architecture)
  pure (["## Architecture: `" ++ architecture ++ "`", ""] ++ blocks.flatten)

def header (title : String) : List String :=
  ["# " ++ title, "",
    "> Profiles use a separate instrumented build and are not benchmark scores.",
    "> Hotspot percentages are sampled with the software `cpu-clock` event.",
    ""]

/-- The stat files of the paths: those below a directory, and a path that is none itself. -/
def statPaths (paths : List Path) : List Path :=
  paths.flatMap fun path => (files.listing path).getD [path]

/-- A stat file with the case its name says. -/
def caseOf (path : Path) : Except Raised (Case × Path) := do
  let case ← parseCase path
  pure (case, path)

/-- The document of some stat files. -/
def renderFiles (statPaths : List Path) (title : String) : Except Raised String :=
  if statPaths = [] then .error (.valueError "no perf stat files found")
  else do
    let cases ← statPaths.mapM caseOf
    let sections ← (architectureOrder (cases.map (·.1.architecture))).mapM
      (renderArchitecture upper files cases)
    pure (document (header title ++ sections.flatten))

def render (paths : List Path) (title : String) : Except Raised String :=
  renderFiles upper files (statPaths files paths) title

end Render

end OfbBench.Profiles
