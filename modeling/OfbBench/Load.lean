import OfbBench.Lib.Python
import OfbBench.Summary

/-!
# Loading the rows

`load_rows` and `main` of `scripts/summarize_results.py`: the rows of the lines of the files at or
below some paths. A path is its text, as `str` gives it, and what the file system holds is the state
`Store`; `explain` is what the decoder says of a line that is no JSON.
-/

namespace OfbBench.Summary

/-- What a file yields line by line: whole lines of text and then, if it cannot be opened or read or
decoded any further, an exception. -/
structure Stream where
  text : String
  failure : Option Raised

structure Store where
  /-- What `rglob("*.jsonl")` yields for a directory, in any order. -/
  listing : String → Option (List String)
  stream : String → Stream

/-- The components of a path. -/
def components (path : String) : List (List Char) := path.toList.splitOn '/'

/-- `sorted(paths)`: paths are compared by their components. -/
def sortPaths (paths : List String) : List String :=
  paths.insertionSort fun a b => components a ≤ components b

/-- The lines `for line in stream` goes over. -/
def fileLines (text : String) : List (List Char) := splitLines (universalNewlines text.toList)

/-- `not line.strip()`. -/
def isBlank (line : List Char) : Bool := line.all isPySpace

/-- `json.loads(line)`. -/
def decodeLine (line : List Char) : Except Json.Refusal Json := Json.loads (String.ofList line)

section Load

variable (store : Store) (explain : List Char → String)

/-- What is raised for a line that is not decoded: `f"{path}:{line_number}: {error}"` for a
`JSONDecodeError`. The error of `int` is none and passes through. -/
def lineError (path : String) (n : ℕ) (line : List Char) : Json.Refusal → Raised
  | .notJson => .valueError (path ++ ":" ++ toString n ++ ": " ++ explain line)
  | .tooManyDigits digits => .valueError (Json.tooManyDigitsMessage digits)

/-- The loop over the lines of a file, the first of them the `n`th. -/
def lineRows (path : String) : ℕ → List (List Char) → Except Raised (List Json)
  | _, [] => pure []
  | n, line :: rest =>
    if isBlank line then lineRows path (n + 1) rest
    else match decodeLine line with
      | .error refusal => .error (lineError explain path n line refusal)
      | .ok row => do
        let rows ← lineRows path (n + 1) rest
        pure (row :: rows)

def fileRows (path : String) : Except Raised (List Json) := do
  let rows ← lineRows explain path 1 (fileLines (store.stream path).text)
  match (store.stream path).failure with
  | none => pure rows
  | some exception => .error exception

/-- The files at or below a path. -/
def filesAt (path : String) : List String :=
  match store.listing path with
  | some found => sortPaths found
  | none => [path]

def loadRows (paths : List String) : Except Raised (List Json) := do
  let rows ← (paths.flatMap (filesAt store)).mapM (fileRows store explain)
  if rows.flatten.isEmpty then .error (.valueError "no JSON Lines benchmark results found")
  else pure rows.flatten

/-- How a run ends without a document; it is `unmodelled` when a row holds a value that is not
modelled. -/
inductive Failure
  | raised (exception : Raised)
  | render (error : PyError)
  | unmodelled
  deriving DecidableEq, Repr

/-- `main`, on the paths and the title: the document it writes. -/
def main (paths : List String) (title : String) : Except Failure String :=
  match loadRows store explain paths with
  | .error exception => .error (.raised exception)
  | .ok values =>
    match values.mapM Row.ofJson with
    | none => .error .unmodelled
    | some rows =>
      match render rows title with
      | .error error => .error (.render error)
      | .ok text => .ok text

end Load

end OfbBench.Summary
