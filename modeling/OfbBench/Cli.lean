import OfbBench.Bench
import OfbBench.Lib.Format

/-!
# Command lines

What the `main` functions of the two programs share: the build's labels, `parse_u64`, the calls
`main` makes and the ways its option loop ends.
-/

namespace OfbBench

/-- What the build fixes: `OFB_ARCHITECTURE`, `OFB_BACKEND_NAME`, what `OpenSSL_version` returns,
`OFB_DEFAULT_CERT_PATH` and `OFB_DEFAULT_KEY_PATH`. -/
structure Build where
  architecture : String
  backendName : String
  opensslVersion : String
  defaultCertPath : String
  defaultKeyPath : String

/-- `parse_u64` of both programs: the return value, and `*value` as the call leaves it. -/
def parseU64 (text : String) (value : UInt64) : Int × UInt64 :=
  let parsed := strtoull text.toList
  if parsed.erange ∨ text = "" ∨ parsed.rest ≠ [] then (-1, value) else (0, parsed.value)

/-- What `main` calls: a case of the matrix, or output. -/
inductive Main.Call (C : Type)
  | runCase (case : C)
  | print (stream : Stream) (text : String)

@[reducible] def Main.Resp {C : Type} : Main.Call C → Type
  | .runCase _ => Int
  | .print _ _ => Unit

abbrev Main (C : Type) : Api := ⟨Main.Call C, Main.Resp⟩

/-- How the option loop ends: with the options to run, or at a word that ends the program. -/
inductive Parsed (O : Type)
  | run (options : O)
  | help
  | list
  | dangling
  | invalid (option : String)
  | unknown (option : String)

/-- A loop that runs its body on each element and leaves with the first status that is not 0. -/
def forEach {A : Api} {α : Type} : List α → (α → Prog A Int) → Prog A Int
  | [], _ => pure 0
  | x :: xs, body => do
    let status ← body x
    if status ≠ 0 then pure status else forEach xs body

end OfbBench
