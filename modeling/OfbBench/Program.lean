import OfbBench.AeadMain
import OfbBench.Lib.Refine
import OfbBench.OpensslAead
import OfbBench.OpensslTls
import OfbBench.TlsMain

/-!
# The linked programs

The two executables of `CMakeLists.txt`: `main` linked with `run_case` and with its backend, over
the calls that are left, those to the library and those to the host.

An address a benchmark program holds is looked up among the backends it created; a call on an
address that holds none is made to the host as `stray`, where it can be ruled out.
-/

namespace OfbBench

/-- What a linked program calls beside its library: the clock, the output streams, and the stack,
which answers what an uninitialised array happens to hold. -/
inductive Host.Call (R : Type)
  | nowNs
  | printRow (row : R)
  | print (stream : Stream) (text : String)
  | uninitialised (size : ℕ)
  | stray (backend : Ptr)

@[reducible] def Host.Resp {R : Type} : Host.Call R → Type
  | .nowNs => UInt64
  | .printRow _ => Unit
  | .print _ _ => Unit
  | .uninitialised size => { bytes : List UInt8 // bytes.length = size }
  | .stray _ => Int

abbrev Host (R : Type) : Api := ⟨Host.Call R, Host.Resp⟩

/-- The calls of a linked program. -/
abbrev Process (L : Api) (R : Type) : Api := L.plus (Host R)

/-- A backend as its program sees it, over the calls `L` of its library: `create` with a `*backend`
that is NULL, and the functions on what it made. -/
structure Implementation (L : Api) (P S : Type) where
  create : P → Prog L (Int × Option (Option S))
  self : S → Ptr
  scratch : ℕ
  verify : S → List UInt8 → Prog L (Int × S)
  runBatch : S → UInt64 → Prog L (Int × S)
  destroy : Option S → Prog L Unit

section Serve

variable {L : Api} {P R S : Type}

/-- The backends at the addresses of the program. -/
abbrev Heap (S : Type) := Ptr → Option S

def host (c : Host.Call R) : Prog (Process L R) (Host.Resp c) := @Prog.askRight L (Host R) c

def library {α : Type} (p : Prog L α) : Prog (Process L R) α := p.link (@Prog.askLeft L (Host R))

/-- What `create` leaves in the `*backend` of the program. -/
def createdBackend (out : Int × Option (Option S)) : Option S :=
  if out.1 ≠ 0 then none else out.2.join

/-- A call of a benchmark program, made on the backends in `heap`. -/
def Implementation.serve (impl : Implementation L P S) (heap : Heap S) :
    (c : Driver.Call P R) → Prog (Process L R) (Driver.Resp c × Heap S)
  | .backendCreate params => do
    let out ← library (impl.create params)
    match createdBackend out with
    | none => pure (none, heap)
    | some state =>
      pure (some (impl.self state), Function.update heap (impl.self state) (some state))
  | .backendVerify backend =>
    match heap backend with
    | none => do
      let rc ← host (.stray backend)
      pure (rc, heap)
    | some state => do
      let unset ← host (.uninitialised impl.scratch)
      let out ← library (impl.verify state unset.1)
      pure (out.1, Function.update heap backend (some out.2))
  | .backendRunBatch backend iterations =>
    match heap backend with
    | none => do
      let rc ← host (.stray backend)
      pure (rc, heap)
    | some state => do
      let out ← library (impl.runBatch state iterations)
      pure (out.1, Function.update heap backend (some out.2))
  | .backendDestroy none => do
    library (impl.destroy none)
    pure ((), heap)
  | .backendDestroy (some backend) =>
    match heap backend with
    | none => do
      let _ ← host (.stray backend)
      pure ((), heap)
    | some state => do
      library (impl.destroy (some state))
      pure ((), Function.update heap backend none)
  | .nowNs => do
    let now ← host .nowNs
    pure (now, heap)
  | .printRow row => do
    host (.printRow row)
    pure ((), heap)
  | .print stream text => do
    host (.print stream text)
    pure ((), heap)

/-- A program linked with its backend; it starts without one. -/
def Implementation.link {α : Type} (impl : Implementation L P S) (p : Prog (Driver P R) α) :
    Prog (Process L R) α := do
  let out ← p.serve impl.serve fun _ => none
  pure out.1

/-- What a call writes to the standard output. -/
def writtenBy (text : R → String) : Event (Process L R) → String
  | ⟨.inr (.printRow row), _⟩ => text row
  | ⟨.inr (.print .stdout text), _⟩ => text
  | _ => ""

/-- The standard output of a run. -/
def standardOutput (text : R → String) (t : Trace (Process L R)) : String :=
  String.join (t.map (writtenBy text))

def rowPrinted : Event (Process L R) → Option R
  | ⟨.inr (.printRow row), _⟩ => some row
  | _ => none

/-- The rows a run prints, in order. -/
def printedRows (t : Trace (Process L R)) : List R := t.filterMap rowPrinted

end Serve

namespace Aead

def implementation : Implementation Evp Params Backend where
  create params := ofbBackendCreate (some params) (some none)
  self := Backend.self
  scratch := tagSize
  verify := ofbBackendVerify
  runBatch := ofbBackendRunBatch
  destroy := ofbBackendDestroy

/-- What `main` calls, over the calls of a case. -/
def mainCall (rnd : ℚ → ℚ) (build : Build) : (c : Main.Call Case) → Prog Bench (Main.Resp c)
  | .runCase case =>
    runCase rnd build case.options case.algorithm case.operation case.messageSize
  | .print stream text => print stream text

/-- The program `main.c`, `runner.c` and `openssl_aead.c` make. -/
def executable (rnd : ℚ → ℚ) (build : Build) (program : String) (args : List String) :
    Prog (Process Evp Row) Int :=
  implementation.link ((main program args).link (mainCall rnd build))

end Aead

namespace Tls

def implementation : Implementation Ssl Params Backend where
  create params := ofbTlsBackendCreate (some params) (some none)
  self := Backend.self
  scratch := 0
  verify state _ := ofbTlsBackendVerify state
  runBatch := ofbTlsBackendRunBatch
  destroy := ofbTlsBackendDestroy

/-- What `main` calls, over the calls of a case. -/
def mainCall (rnd : ℚ → ℚ) (build : Build) : (c : Main.Call Case) → Prog Bench (Main.Resp c)
  | .runCase case =>
    runCase rnd build case.options case.cipher case.benchmark case.messageSize
  | .print stream text => print stream text

/-- The program `tls_main.c` and `openssl_tls.c` make. -/
def executable (rnd : ℚ → ℚ) (build : Build) (program : String) (args : List String) :
    Prog (Process Ssl Row) Int :=
  implementation.link ((main build program args).link (mainCall rnd build))

end Tls

end OfbBench
