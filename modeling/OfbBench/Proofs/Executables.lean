import OfbBench.Proofs.Contexts
import OfbBench.Proofs.Matrix
import OfbBench.Proofs.Sessions

/-!
# The executables keep to their libraries' protocols

Whatever the words of its command line, the answers of its library and of its host, each executable
makes no call its library does not allow then, calls no backend it has not created or has already
destroyed, and has released once, when it exits, all it acquired (`aead_custody`, `tls_custody`).
-/

namespace OfbBench

open Ledger

section Custody

variable {L : Api} {P R S ρ φ α : Type} [DecidableEq ρ] {impl : Implementation L P S}
  {K : Custody L ρ φ} {own left : S → Custody.Books ρ φ → Prop}

/-- A program that keeps to the automaton, linked with a backend that holds nothing before it is
created and after it is destroyed. -/
theorem Implementation.Sound.releasedOnce
    (h : impl.Sound K.env (fun books => Holds books.log 0) own left) {p : Prog (Driver P R) α}
    (hp : lifeEnv.wp p (fun _ life => life = .absent) .absent) {phase : ρ → φ}
    {t : Trace (Process L R)} {a : α} {books : Custody.Books ρ φ}
    (hrun : (impl.link p).Runs t a)
    (hpath : (K.env.plus hostEnv).Path (⟨[], phase⟩, ()) t (books, ())) :
    (K.env.plus hostEnv).Safe (⟨[], phase⟩, ()) t ∧ ReleasedOnce books.log := by
  have hlink := h.wp_link hp (t := ⟨[], phase⟩) .nil
  have hend := Env.wp_sound _ hlink hrun hpath
  exact ⟨Env.wp_safe _ hlink hrun, hend.releasedOnce⟩

end Custody

/-- Both mains leave no backend behind. -/
theorem wp_main {C P R : Type} {mainCall : (c : Main.Call C) → Prog (Driver P R) (Main.Resp c)}
    (h : ∀ c (life : Life), life = .absent →
      lifeEnv.wp (mainCall c) (fun _ life' => life' = .absent) life) (p : Prog (Main C) Int) :
    lifeEnv.wp (p.link mainCall) (fun _ life => life = .absent) .absent :=
  Env.wp_link h p rfl

/-! ## A host that answers everything -/

section Host

variable {L : Api} {R τ : Type}

/-- Its clock shows one millisecond more at each reading; the stack is all zeros. -/
def tickingHost (now : ℕ) : (c : Host.Call R) → Host.Resp c × ℕ
  | .nowNs => (UInt64.ofNat (now + 1000000), now + 1000000)
  | .printRow _ => ((), now)
  | .print _ _ => ((), now)
  | .uninitialised size => (⟨List.replicate size 0, length_zeros size⟩, now)
  | .stray _ => ((-1 : Int), now)

/-- A library beside that host. -/
def onHost (lib : τ → (c : L.Call) → L.Resp c × τ) (s : τ × ℕ) :
    (c : (Process L R).Call) → (Process L R).Resp c × (τ × ℕ)
  | .inl c => ((lib s.1 c).1, (lib s.1 c).2, s.2)
  | .inr c => ((tickingHost s.2 c).1, s.1, (tickingHost s.2 c).2)

/-- A run beside that host is answered as is expected. -/
theorem path_onHost {E : Env L τ} {lib : τ → (c : L.Call) → L.Resp c × τ} {α : Type}
    (h : ∀ x c, E.step x c (lib x c).1 (lib x c).2) (p : Prog (Process L R) α) (s : τ × ℕ) :
    (E.plus hostEnv).Path (s.1, ()) (p.run (onHost lib) s).1
      ((p.run (onHost lib) s).2.2.1, ()) := by
  have hstep : ∀ (s : τ × ℕ) (c : (Process L R).Call), (E.plus hostEnv).step (s.1, ()) c
      (onHost lib s c).1 ((onHost lib s c).2.1, ()) := by
    intro s c
    cases c with
    | inl c => exact ⟨h s.1 c, rfl⟩
    | inr c => exact ⟨trivial, rfl⟩
  exact Env.path_run _ hstep p s

end Host

/-! ## The AEAD benchmark -/

theorem aead_custody (rnd : ℚ → ℚ) (build : Build) (program : String) (args : List String)
    (phase : Aead.Resource → Aead.Progress) {t : Trace (Process Aead.Evp Aead.Row)} {status : Int}
    {books : Aead.EvpBooks} (hrun : (Aead.executable rnd build program args).Runs t status)
    (hpath : (Aead.evp.env.plus hostEnv).Path (⟨[], phase⟩, ()) t (books, ())) :
    (Aead.evp.env.plus hostEnv).Safe (⟨[], phase⟩, ()) t ∧ ReleasedOnce books.log :=
  Aead.implementation_sound.releasedOnce (wp_main (aead_mainCall rnd build) _) hrun hpath

section Seal

def testBuild : Build := ⟨"x86_64", "openssl", "OpenSSL 3.5.7", "cert.pem", "key.pem"⟩

/-- Two samples of one case. -/
def sealProgram : Prog (Process Aead.Evp Aead.Row) Int :=
  Aead.executable id testBuild "ofb-aead" (sealArgs ++ ["--samples", "2"])

def sealRun : Trace (Process Aead.Evp Aead.Row) × Int × (Aead.EvpBooks × ℕ) :=
  sealProgram.run (onHost (Aead.evp.handler Aead.identityLibrary)) (⟨[], fun _ => .idle⟩, 0)

theorem aead_custody_seal :
    (Aead.evp.env.plus hostEnv).Safe (⟨[], fun _ => .idle⟩, ()) sealRun.1
      ∧ ReleasedOnce sealRun.2.2.1.log := by
  unfold sealRun
  -- the run is not evaluated: it is the one the handler answers, whatever it is
  generalize hp : sealProgram = p
  have hrun := Prog.runs_run (onHost (Aead.evp.handler Aead.identityLibrary)) p
    (⟨[], fun _ => .idle⟩, 0)
  have hpath := path_onHost Aead.identityLibrary_step p (⟨[], fun _ => .idle⟩, 0)
  generalize p.run _ _ = out at hrun hpath ⊢
  subst hp
  exact aead_custody id testBuild "ofb-aead" (sealArgs ++ ["--samples", "2"]) _ hrun hpath

end Seal

/-! ## The TLS benchmark -/

theorem tls_custody (rnd : ℚ → ℚ) (build : Build) (program : String) (args : List String)
    (sessions : Tls.Sessions) {t : Trace (Process Tls.Ssl Tls.Row)} {status : Int}
    {books : Tls.SslBooks} (hrun : (Tls.executable rnd build program args).Runs t status)
    (hpath : (Tls.ssl.env.plus hostEnv).Path (⟨[], sessions⟩, ()) t (books, ())) :
    (Tls.ssl.env.plus hostEnv).Safe (⟨[], sessions⟩, ()) t ∧ ReleasedOnce books.log :=
  Tls.implementation_sound.releasedOnce (wp_main (tls_mainCall rnd build) _) hrun hpath

section Handshake

/-- Two samples of one cipher's handshakes. -/
def handshakeProgram : Prog (Process Tls.Ssl Tls.Row) Int :=
  Tls.executable id testBuild "ofb-tls"
    ["--benchmark", "handshake", "--cipher", "TLS_AES_128_GCM_SHA256", "--samples", "2"]

def handshakeRun : Trace (Process Tls.Ssl Tls.Row) × Int × (Tls.SslBooks × ℕ) :=
  handshakeProgram.run (onHost (Tls.ssl.handler Tls.promptLibrary)) (⟨[], fun _ => .blank⟩, 0)

theorem tls_custody_handshake :
    (Tls.ssl.env.plus hostEnv).Safe (⟨[], fun _ => .blank⟩, ()) handshakeRun.1
      ∧ ReleasedOnce handshakeRun.2.2.1.log := by
  unfold handshakeRun
  generalize hp : handshakeProgram = p
  have hrun := Prog.runs_run (onHost (Tls.ssl.handler Tls.promptLibrary)) p
    (⟨[], fun _ => .blank⟩, 0)
  have hpath := path_onHost Tls.promptLibrary_step p (⟨[], fun _ => .blank⟩, 0)
  generalize p.run _ _ = out at hrun hpath ⊢
  subst hp
  exact tls_custody id testBuild "ofb-tls" _ _ hrun hpath

end Handshake

end OfbBench
