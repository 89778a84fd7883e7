import OfbBench.OpensslTls
import OfbBench.Lib.Ledger

/-!
# The TLS backend releases what it acquires

The books (`Books`) record every acquisition and release the backend's calls make, and which BIOs
each SSL was handed. Each function is specified by what it holds before and after
(`wp_tlsPairCreate`, `wp_use`); what a backend holds is released by `ofb_tls_backend_destroy`, and
what a failed `ofb_tls_backend_create` holds on its way by itself.
-/

namespace OfbBench.Tls

open Ledger

inductive Resource
  | memory (ptr : Ptr)
  | ctx (ptr : Ptr)
  | ssl (ptr : Ptr)
  | bio (ptr : Ptr)
  deriving DecidableEq, Repr

/-- The acquisitions and releases so far, and the BIOs each SSL was handed. -/
structure Books where
  log : List (Act Resource)
  bios : Ptr → List Ptr

/-- An SSL with the BIOs it was handed. -/
def sslObjects (books : Books) (ssl : Ptr) : List Resource :=
  (books.bios ssl).map .bio ++ [.ssl ssl]

/-- What an answered call acquires and releases. An SSL releases the BIOs it was handed when it is
freed, or handed others. -/
def acts (books : Books) : (call : Ssl.Call) → Ssl.Resp call → List (Act Resource)
  | .calloc, some ptr => [.acquire (.memory ptr)]
  | .malloc _, some block => [.acquire (.memory block.ptr)]
  | .memFree (some ptr), _ => [.release (.memory ptr)]
  | .ctxNew, some ctx => [.acquire (.ctx ctx)]
  | .ctxFree (some ctx), _ => [.release (.ctx ctx)]
  | .sslNew _, some ssl => [.acquire (.ssl ssl)]
  | .sslFree (some ssl), _ => (sslObjects books ssl).map .release
  | .newBioPair, some (bio₁, bio₂) => [.acquire (.bio bio₁), .acquire (.bio bio₂)]
  | .bioFree (some bio), _ => [.release (.bio bio)]
  | .setBio (some ssl) _ _, _ => ((books.bios ssl).map Resource.bio).map .release
  | _, _ => []

/-- The BIOs of each SSL after an answered call. -/
def biosAfter (books : Books) : (call : Ssl.Call) → Ssl.Resp call → Ptr → List Ptr
  | .sslNew _, some ssl => Function.update books.bios ssl []
  | .setBio (some ssl) rbio wbio, _ =>
    Function.update books.bios ssl (if rbio = wbio then [rbio] else [rbio, wbio])
  | _, _ => books.bios

/-- The library and the allocator hand out objects that are not held. -/
def booksEnv : Env Ssl Books where
  pre _ _ := True
  step books call answer books' :=
    FreshActs books.log (acts books call answer)
      ∧ books' = ⟨books.log ++ acts books call answer, biosAfter books call answer⟩

/-! ## What is held -/

/-- An object that may be NULL. -/
def held (resource : Ptr → Resource) : Option Ptr → Multiset Resource
  | none => 0
  | some ptr => {resource ptr}

def sslHeld (books : Books) : Option Ptr → Multiset Resource
  | none => 0
  | some ssl => sslObjects books ssl

def pairHeld (books : Books) (pair : TlsPair) : Multiset Resource :=
  sslHeld books pair.client + sslHeld books pair.server

def backendHeld (books : Books) (state : Backend) : Multiset Resource :=
  pairHeld books state.transferPair + (held .ctx state.clientCtx + (held .ctx state.serverCtx
    + (held .memory state.plaintext.ptr + (held .memory state.received.ptr
    + held .memory (some state.self)))))

/-- The SSLs among what is held have the BIOs they had. -/
def SameBios (S : Multiset Resource) (books books' : Books) : Prop :=
  ∀ ssl, .ssl ssl ∈ S → books'.bios ssl = books.bios ssl

theorem SameBios.mono {S T : Multiset Resource} {b₁ b₂ : Books} (h : SameBios (T + S) b₁ b₂) :
    SameBios S b₁ b₂ := fun ssl hs => h ssl (Multiset.mem_add.2 (.inr hs))

theorem SameBios.of_eq {S : Multiset Resource} {books books' : Books}
    (h : books'.bios = books.bios) : SameBios S books books' := fun _ _ => by rw [h]

theorem SameBios.trans {S : Multiset Resource} {b₁ b₂ b₃ : Books} (h₁ : SameBios S b₁ b₂)
    (h₂ : SameBios S b₂ b₃) : SameBios S b₁ b₃ :=
  fun ssl hs => (h₂ ssl hs).trans (h₁ ssl hs)

theorem sslHeld_congr {ssl : Option Ptr} {books books' : Books}
    (h : ∀ p, ssl = some p → books'.bios p = books.bios p) :
    sslHeld books' ssl = sslHeld books ssl := by
  rcases ssl with _ | p
  · rfl
  · unfold sslHeld sslObjects
    simp only [h p rfl]

theorem sslHeld_eq_held {ssl : Option Ptr} {books : Books}
    (h : ∀ p, ssl = some p → books.bios p = []) : sslHeld books ssl = held .ssl ssl := by
  rcases ssl with _ | p
  · rfl
  · have hp := h p rfl
    simp only [sslHeld, sslObjects, hp]
    rfl

section Calls

variable {books : Books} {S : Multiset Resource}

/-- An allocation that may fail. -/
theorem wp_acquire (call : Ssl.Call) (ptr : Ssl.Resp call → Option Ptr)
    {resource : Ptr → Resource} {Q : Ssl.Resp call → Books → Prop}
    (hacts : ∀ answer, acts books call answer
      = ((ptr answer).map fun p => Act.acquire (resource p)).toList)
    (hbios : ∀ answer, biosAfter books call answer = books.bios) (h : Holds books.log S)
    (hQ : ∀ answer books', Holds books'.log (held resource (ptr answer) + S) →
      books'.bios = books.bios → Q answer books') :
    booksEnv.wp (Prog.ask (A := Ssl) call) Q books := by
  refine ⟨trivial, fun answer books' hs => ?_⟩
  obtain ⟨hfresh, rfl⟩ := hs
  refine hQ answer _ ?_ (hbios answer)
  rw [hacts] at hfresh ⊢
  rcases hptr : ptr answer with _ | p
  · simpa [held] using h
  · rw [hptr] at hfresh
    simp only [Option.map_some, Option.toList_some] at hfresh ⊢
    exact h.acquire hfresh.1

theorem wp_calloc {Q : Option Ptr → Books → Prop} (h : Holds books.log S)
    (hQ : ∀ ptr books', Holds books'.log (held .memory ptr + S) → books'.bios = books.bios →
      Q ptr books') : booksEnv.wp calloc Q books :=
  wp_acquire .calloc id (fun ptr => by cases ptr <;> rfl) (fun _ => rfl) h hQ

theorem wp_malloc {size : UInt64} {Q : Option (Block size.toNat) → Books → Prop}
    (h : Holds books.log S)
    (hQ : ∀ block books', Holds books'.log (held .memory (Block.buffer block).ptr + S) →
      books'.bios = books.bios → Q block books') : booksEnv.wp (malloc size) Q books :=
  wp_acquire _ (fun block => (Block.buffer block).ptr) (fun block => by cases block <;> rfl)
    (fun _ => rfl) h hQ

theorem wp_sslCtxNew {Q : Option Ptr → Books → Prop} (h : Holds books.log S)
    (hQ : ∀ ctx books', Holds books'.log (held .ctx ctx + S) → books'.bios = books.bios →
      Q ctx books') : booksEnv.wp sslCtxNew Q books :=
  wp_acquire _ id (fun ctx => by cases ctx <;> rfl) (fun _ => rfl) h hQ

/-- The release of some of what is held. -/
theorem wp_release {call : Ssl.Call} (rs : List Resource) {Q : Ssl.Resp call → Books → Prop}
    (hacts : ∀ answer, acts books call answer = rs.map .release)
    (hbios : ∀ answer, biosAfter books call answer = books.bios) (h : Holds books.log (rs + S))
    (hQ : ∀ answer books', Holds books'.log S → books'.bios = books.bios → Q answer books') :
    booksEnv.wp (Prog.ask (A := Ssl) call) Q books := by
  refine ⟨trivial, fun answer books' hs => ?_⟩
  obtain ⟨-, rfl⟩ := hs
  refine hQ answer _ ?_ (hbios answer)
  rw [hacts]
  exact h.releases

theorem wp_memFree {ptr : Option Ptr} {Q : Unit → Books → Prop}
    (h : Holds books.log (held .memory ptr + S))
    (hQ : ∀ books', Holds books'.log S → books'.bios = books.bios → Q () books') :
    booksEnv.wp (memFree ptr) Q books := by
  rcases ptr with _ | p
  · exact wp_release [] (fun _ => rfl) (fun _ => rfl) h fun _ => hQ
  · exact wp_release [.memory p] (fun _ => rfl) (fun _ => rfl) h fun _ => hQ

theorem wp_sslCtxFree {ctx : Option Ptr} {Q : Unit → Books → Prop}
    (h : Holds books.log (held .ctx ctx + S))
    (hQ : ∀ books', Holds books'.log S → books'.bios = books.bios → Q () books') :
    booksEnv.wp (sslCtxFree ctx) Q books := by
  rcases ctx with _ | p
  · exact wp_release [] (fun _ => rfl) (fun _ => rfl) h fun _ => hQ
  · exact wp_release [.ctx p] (fun _ => rfl) (fun _ => rfl) h fun _ => hQ

theorem wp_bioFree_none {Q : Unit → Books → Prop} (h : Holds books.log S)
    (hQ : ∀ books', Holds books'.log S → books'.bios = books.bios → Q () books') :
    booksEnv.wp (bioFree none) Q books :=
  wp_release [] (fun _ => rfl) (fun _ => rfl) (by simpa using h) fun _ => hQ

theorem wp_sslFree {ssl : Option Ptr} {Q : Unit → Books → Prop}
    (h : Holds books.log (sslHeld books ssl + S))
    (hQ : ∀ books', Holds books'.log S → books'.bios = books.bios → Q () books') :
    booksEnv.wp (sslFree ssl) Q books := by
  rcases ssl with _ | p
  · exact wp_release [] (fun _ => rfl) (fun _ => rfl) h fun _ => hQ
  · exact wp_release _ (fun _ => rfl) (fun _ => rfl) h fun _ => hQ

/-- A new SSL has no BIOs, and is none of those held. -/
theorem wp_sslNew {ctx : Option Ptr} {Q : Option Ptr → Books → Prop} (h : Holds books.log S)
    (hQ : ∀ ssl books', Holds books'.log (held .ssl ssl + S) →
      (∀ p, ssl = some p → books'.bios p = [] ∧ .ssl p ∉ S) → SameBios S books books' →
      Q ssl books') :
    booksEnv.wp (sslNew ctx) Q books := by
  refine ⟨trivial, fun ssl books' hs => ?_⟩
  obtain ⟨hfresh, rfl⟩ := hs
  rcases ssl with _ | p
  · refine hQ none _ ?_ (fun p hp => by simp at hp) (.of_eq rfl)
    simpa [held, acts] using h
  · have hp : Fresh books.log (.ssl p) := hfresh.1
    refine hQ (some p) _ (h.acquire hp) ?_ ?_
    · rintro q ⟨⟩
      exact ⟨by simp [biosAfter], h.fresh_iff.1 hp⟩
    · intro q hq
      have hne : q ≠ p := by
        rintro rfl
        exact h.fresh_iff.1 hp hq
      exact Function.update_of_ne hne [] books.bios

theorem wp_bioNewBioPair {Q : Option (Ptr × Ptr) → Books → Prop} (h : Holds books.log S)
    (hnone : ∀ books', Holds books'.log S → books'.bios = books.bios → Q none books')
    (hsome : ∀ bio₁ bio₂ books',
      Holds books'.log (held .bio (some bio₂) + (held .bio (some bio₁) + S)) →
      books'.bios = books.bios → Q (some (bio₁, bio₂)) books') :
    booksEnv.wp bioNewBioPair Q books := by
  refine ⟨trivial, fun bios books' hs => ?_⟩
  obtain ⟨hfresh, rfl⟩ := hs
  rcases bios with _ | ⟨bio₁, bio₂⟩
  · refine hnone _ ?_ rfl
    simpa [acts] using h
  · refine hsome bio₁ bio₂ _ ?_ rfl
    obtain ⟨hfresh₁, hfresh₂, -⟩ := hfresh
    have h₂ := (h.acquire hfresh₁).acquire hfresh₂
    rw [List.append_assoc] at h₂
    exact h₂

/-- An SSL without BIOs is handed one. -/
theorem wp_sslSetBio {p bio : Ptr} {Q : Unit → Books → Prop}
    (h : Holds books.log (held .bio (some bio) + (held .ssl (some p) + S))) (hp : books.bios p = [])
    (hQ : ∀ books', Holds books'.log (sslHeld books' (some p) + S) →
      (∀ q, q ≠ p → books'.bios q = books.bios q) → Q () books') :
    booksEnv.wp (sslSetBio (some p) bio bio) Q books := by
  refine ⟨trivial, fun _ books' hs => ?_⟩
  obtain ⟨-, rfl⟩ := hs
  refine hQ _ ?_ fun q hq => Function.update_of_ne hq _ books.bios
  have hone : sslObjects ⟨books.log ++ acts books (.setBio (some p) bio bio) (),
      biosAfter books (.setBio (some p) bio bio) ()⟩ p = [.bio bio, .ssl p] := by
    simp [sslObjects, biosAfter]
  simp only [acts, sslHeld, hp, List.map_nil, List.append_nil] at hone ⊢
  rw [hone, ← Multiset.cons_coe, Multiset.cons_add]
  exact h

end Calls

/-! ## Calls that leave the books alone -/

/-- A program that neither acquires nor releases. -/
def Neutral {α : Type} (p : Prog Ssl α) : Prop :=
  ∀ (Q : α → Books → Prop) books, (∀ a, Q a books) → booksEnv.wp p Q books

section Neutral

variable {α β : Type}

theorem neutral_pure (a : α) : Neutral (pure a : Prog Ssl α) := fun _ _ h => h a

theorem Neutral.bind {p : Prog Ssl α} {f : α → Prog Ssl β} (hp : Neutral p)
    (hf : ∀ a, Neutral (f a)) : Neutral (p >>= f) := by
  intro Q books h
  rw [Env.wp_bind]
  exact hp _ books fun a => hf a Q books h

theorem neutral_ask {call : Ssl.Call} (hacts : ∀ books answer, acts books call answer = [])
    (hbios : ∀ books answer, biosAfter books call answer = books.bios) :
    Neutral (Prog.ask (A := Ssl) call) := by
  intro Q books h
  refine ⟨trivial, fun answer books' hs => ?_⟩
  obtain ⟨-, rfl⟩ := hs
  rw [hacts, hbios, List.append_nil]
  exact h answer

theorem neutral_handshakeStep (ssl : Option Ptr) (finished : Bool) :
    Neutral (handshakeStep ssl finished) := by
  unfold handshakeStep
  split_ifs with hf
  · exact neutral_pure _
  refine (neutral_ask (fun _ _ => rfl) fun _ _ => rfl).bind fun result => ?_
  split_ifs with hr
  · exact neutral_pure _
  refine (neutral_ask (fun _ _ => rfl) fun _ _ => rfl).bind fun error => ?_
  split_ifs with he
  · exact neutral_pure _
  · exact neutral_pure _

theorem neutral_tlsPairMatches (pair : TlsPair) (cipher : String) :
    Neutral (tlsPairMatches pair cipher) := by
  unfold tlsPairMatches
  refine (neutral_ask (fun _ _ => rfl) fun _ _ => rfl).bind fun v₁ => ?_
  split_ifs with h₁
  · exact neutral_pure _
  refine (neutral_ask (fun _ _ => rfl) fun _ _ => rfl).bind fun v₂ => ?_
  split_ifs with h₂
  · exact neutral_pure _
  refine (neutral_ask (fun _ _ => rfl) fun _ _ => rfl).bind fun c₁ => ?_
  split_ifs with h₃
  · exact neutral_pure _
  exact (neutral_ask (fun _ _ => rfl) fun _ _ => rfl).bind fun c₂ => neutral_pure _

theorem neutral_anyRefused (configs : List (Option Ptr × Config)) :
    Neutral (anyRefused configs) := by
  induction configs with
  | nil => exact neutral_pure _
  | cons config configs ih =>
    unfold anyRefused
    refine (neutral_ask (fun _ _ => rfl) fun _ _ => rfl).bind fun rc => ?_
    split_ifs with h
    · exact neutral_pure _
    · exact ih

theorem neutral_unusable (state : Backend) (params : Params) :
    Neutral (unusable state params) := by
  unfold unusable
  split_ifs with h
  · exact neutral_pure _
  · exact neutral_anyRefused _

theorem neutral_readChunk (server : Option Ptr) (offset chunk received : ℕ) (bytes : List UInt8) :
    Neutral (readChunk server offset chunk received bytes) := by
  induction received, bytes using readChunk.induct offset chunk with
  | case1 received bytes h ih =>
    rw [readChunk, dif_pos h]
    refine (neutral_ask (fun _ _ => rfl) fun _ _ => rfl).bind fun answer => ?_
    split_ifs with hr
    · exact neutral_pure _
    · exact ih answer hr
  | case2 received bytes h =>
    rw [readChunk, dif_neg h]
    exact neutral_pure _

theorem neutral_transferFrom (pair : TlsPair) (plaintext : List UInt8) (messageSize offset : ℕ)
    (bytes : List UInt8) : Neutral (transferFrom pair plaintext messageSize offset bytes) := by
  induction offset, bytes using transferFrom.induct messageSize with
  | case1 offset bytes h chunk ih =>
    rw [transferFrom, dif_pos h]
    refine (neutral_ask (fun _ _ => rfl) fun _ _ => rfl).bind fun result => ?_
    split_ifs with hr
    · exact neutral_pure _
    refine (neutral_readChunk _ _ _ _ _).bind fun ⟨rc, bytes'⟩ => ?_
    by_cases hrc : rc ≠ 0
    · simp only [if_pos hrc]
      exact neutral_pure _
    · simp only [if_neg hrc]
      exact ih result bytes'
  | case2 offset bytes h =>
    rw [transferFrom, dif_neg h]
    exact neutral_pure _

end Neutral

/-! ## What the functions acquire and release -/

section Specs

variable {books : Books} {S : Multiset Resource}

theorem wp_tlsPairDestroy {pair : TlsPair} {Q : TlsPair → Books → Prop}
    (h : Holds books.log (pairHeld books pair + S))
    (hQ : ∀ books', Holds books'.log S → books'.bios = books.bios → Q .null books') :
    booksEnv.wp (tlsPairDestroy pair) Q books := by
  unfold tlsPairDestroy
  unfold pairHeld at h
  simp only [Env.wp_bind]
  rw [add_assoc] at h
  refine wp_sslFree h fun books₁ h₁ hb₁ => ?_
  have hheld : ∀ ssl, sslHeld books₁ ssl = sslHeld books ssl :=
    fun ssl => sslHeld_congr fun p _ => by rw [hb₁]
  rw [← hheld] at h₁
  exact wp_sslFree h₁ fun books₂ h₂ hb₂ => hQ books₂ h₂ (hb₂.trans hb₁)

/-- Giving up on a pair. -/
theorem wp_giveUp {pair : TlsPair} {Q : Int × TlsPair → Books → Prop}
    (h : Holds books.log (pairHeld books pair + S))
    (hfail : ∀ books', Holds books'.log S → books'.bios = books.bios →
      Q (-1, .null) books') :
    booksEnv.wp (do let pair ← tlsPairDestroy pair; pure (-1, pair)) Q books := by
  rw [Env.wp_bind]
  exact wp_tlsPairDestroy h fun books' => hfail books'

theorem wp_handshakeLoop {pair : TlsPair} {attempts : ℕ} {clientFinished serverFinished : Bool}
    {Q : Int × TlsPair → Books → Prop} (h : Holds books.log (pairHeld books pair + S))
    (hok : Q (0, pair) books)
    (hfail : ∀ books', Holds books'.log S → books'.bios = books.bios →
      Q (-1, .null) books') :
    booksEnv.wp (handshakeLoop pair attempts clientFinished serverFinished) Q books := by
  induction attempts generalizing clientFinished serverFinished with
  | zero => exact wp_giveUp h hfail
  | succ attempts ih =>
    unfold handshakeLoop
    rw [Env.wp_bind]
    refine neutral_handshakeStep _ _ _ _ fun ⟨rc₁, clientFinished⟩ => ?_
    simp only
    split_ifs with hrc₁
    · exact wp_giveUp h hfail
    rw [Env.wp_bind]
    refine neutral_handshakeStep _ _ _ _ fun ⟨rc₂, serverFinished⟩ => ?_
    simp only
    split_ifs with hrc₂ hfinished
    · exact wp_giveUp h hfail
    · exact hok
    · exact ih

theorem wp_newBios {client server : Option Ptr} {Q : Option (Ptr × Ptr) → Books → Prop}
    (h : Holds books.log S)
    (hnone : ∀ books', Holds books'.log S → books'.bios = books.bios → Q none books')
    (hsome : ∀ c s bio₁ bio₂ books', client = some c → server = some s →
      Holds books'.log (held .bio (some bio₂) + (held .bio (some bio₁) + S)) →
      books'.bios = books.bios → Q (some (bio₁, bio₂)) books') :
    booksEnv.wp (newBios client server) Q books := by
  unfold newBios
  rcases client with _ | c
  · exact hnone books h rfl
  rcases server with _ | s
  · exact hnone books h rfl
  rw [if_neg (by simp)]
  exact wp_bioNewBioPair h hnone fun x y books' => hsome c s x y books' rfl rfl

/-- Giving up on SSL objects without BIOs. -/
theorem wp_giveUp_noBios {client server : Option Ptr} {Q : Int × TlsPair → Books → Prop}
    (h : Holds books.log (held .ssl server + (held .ssl client + S)))
    (hclient : ∀ p, client = some p → books.bios p = [])
    (hserver : ∀ p, server = some p → books.bios p = [])
    (hfail : ∀ books', Holds books'.log S → books'.bios = books.bios → Q (-1, .null) books') :
    booksEnv.wp (do
      bioFree none
      bioFree none
      let pair ← tlsPairDestroy ⟨client, server⟩
      pure (-1, pair)) Q books := by
  rw [Env.wp_bind]
  refine wp_bioFree_none h fun books₁ h₁ hb₁ => ?_
  rw [Env.wp_bind]
  refine wp_bioFree_none h₁ fun books₂ h₂ hb₂ => ?_
  have hb : books₂.bios = books.bios := hb₂.trans hb₁
  have hpair : pairHeld books₂ ⟨client, server⟩ + S
      = held .ssl server + (held .ssl client + S) := by
    rw [pairHeld, sslHeld_eq_held fun p hp => by rw [hb]; exact hclient p hp,
      sslHeld_eq_held fun p hp => by rw [hb]; exact hserver p hp]
    abel
  exact wp_giveUp (by rw [hpair]; exact h₂) fun books₃ h₃ hb₃ => hfail books₃ h₃ (hb₃.trans hb)

/-- Both SSL objects get their BIOs, which are freed with them from then on. -/
theorem wp_setBios {α : Type} {c s x y : Ptr} {k : Prog Ssl α} {Q : α → Books → Prop}
    (hne : s ≠ c) (hc : books.bios c = []) (hs : books.bios s = [])
    (h : Holds books.log (held .bio (some y) + (held .bio (some x) + (held .ssl (some s)
      + (held .ssl (some c) + S)))))
    (hk : ∀ books', Holds books'.log (pairHeld books' ⟨some c, some s⟩ + S) →
      (∀ p, p ≠ c → p ≠ s → books'.bios p = books.bios p) → booksEnv.wp k Q books') :
    booksEnv.wp (do sslSetBio (some c) x x; sslSetBio (some s) y y; k) Q books := by
  have hheld : held .bio (some y) + (held .bio (some x) + (held .ssl (some s)
      + (held .ssl (some c) + S))) = held .bio (some x) + (held .ssl (some c)
      + (held .bio (some y) + (held .ssl (some s) + S))) := by abel
  rw [hheld] at h
  rw [Env.wp_bind]
  refine wp_sslSetBio h hc fun books₁ h₁ hb₁ => ?_
  have hheld₁ : sslHeld books₁ (some c) + (held .bio (some y) + (held .ssl (some s) + S))
      = held .bio (some y) + (held .ssl (some s) + (sslHeld books₁ (some c) + S)) := by abel
  rw [hheld₁] at h₁
  rw [Env.wp_bind]
  refine wp_sslSetBio h₁ (by rw [hb₁ s hne]; exact hs) fun books₂ h₂ hb₂ => ?_
  have hpair : pairHeld books₂ ⟨some c, some s⟩ + S
      = sslHeld books₂ (some s) + (sslHeld books₁ (some c) + S) := by
    have hc₂ : sslHeld books₂ (some c) = sslHeld books₁ (some c) :=
      sslHeld_congr fun p hp => hb₂ p fun hps =>
        hne (hps.symm.trans (Option.some.inj hp).symm)
    simp only [pairHeld, hc₂]
    abel
  refine hk books₂ (by rw [hpair]; exact h₂) fun p hpc hps => ?_
  rw [hb₂ p hps, hb₁ p hpc]

/-- A pair is held when it is returned, and nothing is when none is. -/
theorem wp_tlsPairCreate {clientCtx serverCtx : Option Ptr} {Q : Int × TlsPair → Books → Prop}
    (h : Holds books.log S)
    (hok : ∀ pair books', Holds books'.log (pairHeld books' pair + S) → SameBios S books books' →
      Q (0, pair) books')
    (hfail : ∀ books', Holds books'.log S → SameBios S books books' → Q (-1, .null) books') :
    booksEnv.wp (tlsPairCreate clientCtx serverCtx) Q books := by
  unfold tlsPairCreate
  rw [Env.wp_bind]
  refine wp_sslNew h fun client books₁ h₁ hc₁ hs₁ => ?_
  rw [Env.wp_bind]
  refine wp_sslNew h₁ fun server books₂ h₂ hc₂ hs₂ => ?_
  rw [Env.wp_bind]
  have hs : SameBios S books books₂ := hs₁.trans hs₂.mono
  have hclient : ∀ p, client = some p → books₂.bios p = [] := by
    rintro p rfl
    rw [hs₂ p (by simp [held])]
    exact (hc₁ p rfl).1
  have hserver : ∀ p, server = some p → books₂.bios p = [] := fun p hp => (hc₂ p hp).1
  refine wp_newBios h₂ (fun books₃ h₃ hb₃ => ?_) fun c s x y books₃ hc hs' h₃ hb₃ => ?_
  · rw [← hb₃] at hclient hserver
    exact wp_giveUp_noBios h₃ hclient hserver fun books₄ h₄ hb₄ =>
      hfail books₄ h₄ (hs.trans (.of_eq (hb₄.trans hb₃)))
  · subst hc hs'
    rw [← hb₃] at hclient hserver
    have hne : s ≠ c := by
      rintro rfl
      exact (hc₂ s rfl).2 (by simp [held])
    refine wp_setBios hne (hclient c rfl) (hserver s rfl) h₃ fun books₄ h₄ hb₄ => ?_
    have hs₄ : SameBios S books books₄ := by
      intro p hp
      have hpc : p ≠ c := by
        rintro rfl
        exact (hc₁ p rfl).2 hp
      have hps : p ≠ s := by
        rintro rfl
        exact (hc₂ p rfl).2 (Multiset.mem_add.2 (.inr hp))
      rw [hb₄ p hpc hps, hb₃]
      exact hs p hp
    rw [Env.wp_bind]
    refine (neutral_ask (fun _ _ => rfl) fun _ _ => rfl) _ _ fun _ => ?_
    rw [Env.wp_bind]
    refine (neutral_ask (fun _ _ => rfl) fun _ _ => rfl) _ _ fun _ => ?_
    exact wp_handshakeLoop h₄ (hok _ _ h₄ hs₄) fun books₅ h₅ hb₅ =>
      hfail books₅ h₅ (hs₄.trans (.of_eq hb₅))

theorem wp_handshakeBatch {state : Backend} {iterations : ℕ} {Q : Int → Books → Prop}
    (h : Holds books.log S)
    (hQ : ∀ rc books', Holds books'.log S → SameBios S books books' → Q rc books') :
    booksEnv.wp (handshakeBatch state iterations) Q books := by
  induction iterations generalizing books with
  | zero => exact hQ 0 books h (.of_eq rfl)
  | succ iterations ih =>
    unfold handshakeBatch
    rw [Env.wp_bind]
    refine wp_tlsPairCreate h (fun pair books₁ h₁ hs₁ => ?_) fun books₁ h₁ hs₁ => ?_
    · simp only [ne_eq, not_true_eq_false, if_false]
      rw [Env.wp_bind]
      refine wp_tlsPairDestroy h₁ fun books₂ h₂ hb₂ => ?_
      have hs₂ := hs₁.trans (.of_eq hb₂)
      exact ih h₂ fun rc books₃ h₃ hs₃ => hQ rc books₃ h₃ (hs₂.trans hs₃)
    · exact hQ (-1) books₁ h₁ hs₁

/-- The addresses of what a backend holds. -/
structure SameObjects (state state' : Backend) : Prop where
  self : state'.self = state.self
  clientCtx : state'.clientCtx = state.clientCtx
  serverCtx : state'.serverCtx = state.serverCtx
  transferPair : state'.transferPair = state.transferPair
  plaintext : state'.plaintext.ptr = state.plaintext.ptr
  received : state'.received.ptr = state.received.ptr

theorem SameObjects.refl (state : Backend) : SameObjects state state :=
  ⟨rfl, rfl, rfl, rfl, rfl, rfl⟩

theorem SameObjects.trans {s₁ s₂ s₃ : Backend} (h₁ : SameObjects s₁ s₂) (h₂ : SameObjects s₂ s₃) :
    SameObjects s₁ s₃ :=
  ⟨h₂.self.trans h₁.self, h₂.clientCtx.trans h₁.clientCtx, h₂.serverCtx.trans h₁.serverCtx,
    h₂.transferPair.trans h₁.transferPair, h₂.plaintext.trans h₁.plaintext,
    h₂.received.trans h₁.received⟩

theorem backendHeld_congr {state state' : Backend} {books' : Books} (ho : SameObjects state state')
    (hs : SameBios (backendHeld books state + S) books books') :
    backendHeld books' state' = backendHeld books state := by
  have hclient : sslHeld books' state.transferPair.client
      = sslHeld books state.transferPair.client :=
    sslHeld_congr fun p hp => hs p (by simp [backendHeld, pairHeld, sslHeld, sslObjects, hp])
  have hserver : sslHeld books' state.transferPair.server
      = sslHeld books state.transferPair.server :=
    sslHeld_congr fun p hp => hs p (by simp [backendHeld, pairHeld, sslHeld, sslObjects, hp])
  simp only [backendHeld, pairHeld, ho.self, ho.clientCtx, ho.serverCtx, ho.transferPair,
    ho.plaintext, ho.received, hclient, hserver]

theorem wp_transferOnce_books {state : Backend} {Q : Int × Backend → Books → Prop}
    (hQ : ∀ rc state', SameObjects state state' → Q (rc, state') books) :
    booksEnv.wp (transferOnce state) Q books := by
  unfold transferOnce
  rw [Env.wp_bind]
  exact neutral_transferFrom _ _ _ _ _ _ _ fun ⟨rc, bytes⟩ =>
    hQ rc _ ⟨rfl, rfl, rfl, rfl, rfl, rfl⟩

theorem wp_ofbTlsBackendDestroy {state : Backend} {Q : Unit → Books → Prop}
    (h : Holds books.log (backendHeld books state + S))
    (hQ : ∀ books', Holds books'.log S → Q () books') :
    booksEnv.wp (ofbTlsBackendDestroy (some state)) Q books := by
  unfold ofbTlsBackendDestroy
  simp only [backendHeld, add_assoc] at h
  rw [Env.wp_bind]
  refine wp_tlsPairDestroy h fun books₁ h₁ _ => ?_
  rw [Env.wp_bind]
  refine wp_sslCtxFree h₁ fun books₂ h₂ _ => ?_
  rw [Env.wp_bind]
  refine wp_sslCtxFree h₂ fun books₃ h₃ _ => ?_
  rw [Env.wp_bind]
  refine wp_memFree h₃ fun books₄ h₄ _ => ?_
  rw [Env.wp_bind]
  refine wp_memFree h₄ fun books₅ h₅ _ => ?_
  exact wp_memFree h₅ fun books₆ h₆ _ => hQ books₆ h₆

theorem wp_transferBatch_books {state : Backend} {iterations : ℕ}
    {Q : Int × Backend → Books → Prop}
    (hQ : ∀ rc state', SameObjects state state' → Q (rc, state') books) :
    booksEnv.wp (transferBatch state iterations) Q books := by
  induction iterations generalizing state with
  | zero => exact hQ 0 state (.refl state)
  | succ iterations ih =>
    unfold transferBatch
    rw [Env.wp_bind]
    refine wp_transferOnce_books fun rc state₁ ho₁ => ?_
    by_cases hrc : rc ≠ 0
    · simp only [if_pos hrc]
      exact hQ (-1) state₁ ho₁
    · simp only [if_neg hrc]
      exact ih fun rc' state₂ ho₂ => hQ rc' state₂ (ho₁.trans ho₂)

section Kept

variable {state state' : Backend}

theorem SameObjects.holds (ho : SameObjects state state')
    (h : Holds books.log (backendHeld books state + S)) :
    Holds books.log (backendHeld books state' + S) := by
  rw [backendHeld_congr (S := S) ho (.of_eq rfl)]
  exact h

theorem SameBios.holds {books' : Books} (hs : SameBios (backendHeld books state + S) books books')
    (h : Holds books'.log (backendHeld books state + S)) :
    Holds books'.log (backendHeld books' state + S) := by
  rw [backendHeld_congr (.refl state) hs]
  exact h

theorem wp_ofbTlsBackendVerify {Q : Int × Backend → Books → Prop}
    (h : Holds books.log (backendHeld books state + S))
    (hQ : ∀ rc state' books', Holds books'.log (backendHeld books' state' + S) →
      Q (rc, state') books') : booksEnv.wp (ofbTlsBackendVerify state) Q books := by
  unfold ofbTlsBackendVerify
  rcases state.benchmark with _ | _
  · simp only
    rw [Env.wp_bind]
    refine wp_tlsPairCreate h (fun pair books₁ h₁ hs₁ => ?_) fun books₁ h₁ hs₁ => ?_
    · simp only [ne_eq, not_true_eq_false, if_false]
      rw [Env.wp_bind]
      refine neutral_tlsPairMatches _ _ _ _ fun matched => ?_
      split_ifs with hm
      · rw [Env.wp_bind]
        exact wp_tlsPairDestroy h₁ fun books₂ h₂ hb₂ =>
          hQ 0 state books₂ ((hs₁.trans (.of_eq hb₂)).holds h₂)
      · rw [Env.wp_bind]
        exact wp_tlsPairDestroy h₁ fun books₂ h₂ hb₂ =>
          hQ (-1) state books₂ ((hs₁.trans (.of_eq hb₂)).holds h₂)
    · exact hQ (-1) state books₁ (hs₁.holds h₁)
  · simp only
    rw [Env.wp_bind]
    refine neutral_tlsPairMatches _ _ _ _ fun matched => ?_
    split_ifs with hm
    · rw [Env.wp_bind]
      refine wp_transferOnce_books fun rc state₁ ho₁ => ?_
      simp only
      split_ifs with hrc heq
      · exact hQ (-1) state₁ books (ho₁.holds h)
      · exact hQ 0 state₁ books (ho₁.holds h)
      · exact hQ (-1) state₁ books (ho₁.holds h)
    · exact hQ (-1) state books h

theorem wp_ofbTlsBackendRunBatch {iterations : UInt64} {Q : Int × Backend → Books → Prop}
    (h : Holds books.log (backendHeld books state + S))
    (hQ : ∀ rc state' books', Holds books'.log (backendHeld books' state' + S) →
      Q (rc, state') books') : booksEnv.wp (ofbTlsBackendRunBatch state iterations) Q books := by
  unfold ofbTlsBackendRunBatch
  rcases state.benchmark with _ | _
  · simp only
    rw [Env.wp_bind]
    exact wp_handshakeBatch h fun rc books₁ h₁ hs₁ => hQ rc state books₁ (hs₁.holds h₁)
  · simp only
    rw [Env.wp_bind]
    refine wp_transferBatch_books fun rc state₁ ho₁ => ?_
    have h₁ := ho₁.holds h
    simp only
    by_cases hrc : rc ≠ 0
    · rw [if_pos hrc]
      exact hQ (-1) state₁ books h₁
    rw [if_neg hrc]
    by_cases heq : memEq state₁.plaintext.bytes state₁.received.bytes state₁.messageSize.toNat
    · rw [if_pos heq]
      exact hQ 0 _ books (SameObjects.holds ⟨rfl, rfl, rfl, rfl, rfl, rfl⟩ h₁)
    · rw [if_neg heq]
      exact hQ (-1) state₁ books h₁

/-- A call on a backend leaves held what the backend holds. -/
theorem wp_use_books (use : Use) {Q : Int × Backend → Books → Prop}
    (h : Holds books.log (backendHeld books state + S))
    (hQ : ∀ rc state' books', Holds books'.log (backendHeld books' state' + S) →
      Q (rc, state') books') : booksEnv.wp (use.run state) Q books := by
  cases use with
  | verify => exact wp_ofbTlsBackendVerify h hQ
  | runBatch iterations => exact wp_ofbTlsBackendRunBatch h hQ

end Kept

theorem wp_useAll_books {state : Backend} (uses : List Use)
    {Q : List Int × Backend → Books → Prop}
    (h : Holds books.log (backendHeld books state + S))
    (hQ : ∀ rcs state' books', Holds books'.log (backendHeld books' state' + S) →
      Q (rcs, state') books') : booksEnv.wp (useAll state uses) Q books := by
  induction uses generalizing books state Q with
  | nil => exact hQ [] state books h
  | cons use uses ih =>
    unfold useAll
    rw [Env.wp_bind]
    refine wp_use_books use h fun rc state₁ books₁ h₁ => ?_
    simp only
    rw [Env.wp_bind]
    exact ih h₁ fun rcs state₂ books₂ h₂ => hQ (rc :: rcs) state₂ books₂ h₂

theorem wp_allocate {self : Ptr} {params : Params} {Q : Backend → Books → Prop}
    (h : Holds books.log (held .memory (some self) + S))
    (hQ : ∀ state books', state.transferPair = .null →
      Holds books'.log (backendHeld books' state + S) → Q state books') :
    booksEnv.wp (allocate self params) Q books := by
  unfold allocate
  rw [Env.wp_bind]
  refine wp_sslCtxNew h fun clientCtx books₁ h₁ _ => ?_
  rw [Env.wp_bind]
  refine wp_sslCtxNew h₁ fun serverCtx books₂ h₂ _ => ?_
  rw [Env.wp_bind]
  refine wp_malloc h₂ fun plaintext books₃ h₃ _ => ?_
  rw [Env.wp_bind]
  refine wp_malloc h₃ fun received books₄ h₄ _ => ?_
  refine hQ _ books₄ rfl ?_
  have hheld : held .memory (Block.buffer received).ptr + (held .memory (Block.buffer plaintext).ptr
      + (held .ctx serverCtx + (held .ctx clientCtx + (held .memory (some self) + S))))
      = pairHeld books₄ .null + (held .ctx clientCtx + (held .ctx serverCtx
      + (held .memory (Block.buffer plaintext).ptr + (held .memory (Block.buffer received).ptr
      + held .memory (some self))))) + S := by
    have : pairHeld books₄ .null = 0 := rfl
    rw [this]
    abel
  rw [hheld] at h₄
  exact h₄

/-- What `setUp` acquires is held by the backend it returns, or by nobody. -/
theorem wp_setUp {self : Ptr} {params : Params} {cell : Option Cell}
    {Q : Int × Option Cell → Books → Prop} (h : Holds books.log (held .memory (some self) + S))
    (hok : ∀ state books', Holds books'.log (backendHeld books' state + S) →
      Q (0, some (some state)) books')
    (hfail : ∀ books', Holds books'.log S → Q (-1, cell) books') :
    booksEnv.wp (setUp self params cell) Q books := by
  unfold setUp
  rw [Env.wp_bind]
  refine wp_allocate h fun state books₁ hnull h₁ => ?_
  rw [Env.wp_bind]
  refine neutral_unusable _ _ _ _ fun refused => ?_
  by_cases hr : refused
  · rw [if_pos hr, Env.wp_bind]
    exact wp_ofbTlsBackendDestroy h₁ hfail
  rw [if_neg hr, Env.wp_bind]
  refine (neutral_ask (fun _ _ => rfl) fun _ _ => rfl) _ _ fun _ => ?_
  by_cases hb : params.benchmark = .transfer
  · simp only [if_pos hb]
    rw [Env.wp_bind]
    refine wp_tlsPairCreate h₁ (fun pair books₂ h₂ hs₂ => ?_) fun books₂ h₂ hs₂ => ?_
    · refine hok _ books₂ ?_
      have hheld : backendHeld books₂ { state.fillPlaintext params.messageSize.toNat with
          transferPair := pair } = pairHeld books₂ pair + backendHeld books₁ state := by
        have : pairHeld books₁ .null = 0 := rfl
        simp only [backendHeld, Backend.fillPlaintext, hnull, this, zero_add]
      rw [hheld, add_assoc]
      exact h₂
    · simp only [ne_eq, reduceCtorEq, not_false_eq_true, if_true, Int.reduceNeg]
      rw [Env.wp_bind]
      refine wp_ofbTlsBackendDestroy (S := S) ?_ hfail
      have hheld : backendHeld books₂ { state.fillPlaintext params.messageSize.toNat with
          transferPair := .null } = backendHeld books₁ state := by
        have : ∀ books, pairHeld books .null = 0 := fun _ => rfl
        simp only [backendHeld, Backend.fillPlaintext, hnull, this]
      rw [hheld]
      exact h₂
  · simp only [if_neg hb]
    refine hok _ books₁ ?_
    have hheld : backendHeld books₁ (state.fillPlaintext params.messageSize.toNat)
        = backendHeld books₁ state := rfl
    rw [hheld]
    exact h₁

theorem wp_ofbTlsBackendCreate {params : Option Params} {cell : Option Cell}
    {Q : Int × Option Cell → Books → Prop} (h : Holds books.log S)
    (hok : ∀ state books', Holds books'.log (backendHeld books' state + S) →
      Q (0, some (some state)) books')
    (hfail : ∀ books', Holds books'.log S → Q (-1, cell) books') :
    booksEnv.wp (ofbTlsBackendCreate params cell) Q books := by
  rcases params with _ | params
  · exact hfail books h
  rcases cell with _ | cell
  · exact hfail books h
  unfold ofbTlsBackendCreate
  simp only
  by_cases hmax : params.messageSize > intMax
  · rw [if_pos hmax]
    exact hfail books h
  rw [if_neg hmax, Env.wp_bind]
  refine wp_calloc h fun self books₁ h₁ _ => ?_
  rcases self with _ | self
  · exact hfail books₁ (by simpa [held] using h₁)
  · exact wp_setUp h₁ hok hfail

end Specs

/-- Calls on a backend, and its destruction. -/
def useAndDestroy (state : Backend) (uses : List Use) : Prog Ssl (List Int) := do
  let (rcs, state) ← useAll state uses
  ofbTlsBackendDestroy (some state)
  pure rcs

/-- A `create` that fails has released once all it acquired, and has not changed `*backend`; when it
succeeds, all it and any calls on the backend acquired is released once by the end of
`ofb_tls_backend_destroy`. Nothing is released that is not held then. -/
theorem create_releasedOnce (params : Option Params) (cell : Option Cell) (bios : Ptr → List Ptr)
    {t : Trace Ssl} {out : Int × Option Cell} {books : Books}
    (hrun : (ofbTlsBackendCreate params cell).Runs t out)
    (hpath : booksEnv.Path ⟨[], bios⟩ t books) :
    (out = (-1, cell) ∧ ReleasedOnce books.log) ∨ ∃ state, out = (0, some (some state))
      ∧ ∀ uses t' rcs books', (useAndDestroy state uses).Runs t' rcs →
        booksEnv.Path books t' books' → ReleasedOnce books'.log := by
  have hcreate : booksEnv.wp (ofbTlsBackendCreate params cell) (fun out books =>
      (out = (-1, cell) ∧ Holds books.log 0)
        ∨ ∃ state, out = (0, some (some state)) ∧ Holds books.log (backendHeld books state + 0))
      ⟨[], bios⟩ := by
    refine wp_ofbTlsBackendCreate (S := 0) .nil (fun state books' h => ?_) fun books' h => ?_
    · exact .inr ⟨state, rfl, h⟩
    · exact .inl ⟨rfl, h⟩
  rcases Env.wp_sound _ hcreate hrun hpath with ⟨rfl, h⟩ | ⟨state, rfl, h⟩
  · exact .inl ⟨rfl, h.releasedOnce⟩
  · refine .inr ⟨state, rfl, fun uses t' rcs books' hrun' hpath' => ?_⟩
    have hdestroy : booksEnv.wp (useAndDestroy state uses) (fun _ books => Holds books.log 0)
        books := by
      unfold useAndDestroy
      rw [Env.wp_bind]
      refine wp_useAll_books uses h fun rcs state' books₁ h₁ => ?_
      simp only
      rw [Env.wp_bind]
      exact wp_ofbTlsBackendDestroy h₁ fun books₂ h₂ => h₂
    exact (Env.wp_sound _ hdestroy hrun' hpath').releasedOnce

/-! ## A run without failures -/

/-- The books after the calls of a trace. -/
def Books.after (books : Books) : Trace Ssl → Books
  | [] => books
  | ⟨call, answer⟩ :: t =>
    Books.after ⟨books.log ++ acts books call answer, biosAfter books call answer⟩ t

/-- Every object acquired in a trace is one that is not held. -/
def Books.Fresh (books : Books) : Trace Ssl → Prop
  | [] => True
  | ⟨call, answer⟩ :: t => FreshActs books.log (acts books call answer)
    ∧ Books.Fresh ⟨books.log ++ acts books call answer, biosAfter books call answer⟩ t

instance decidableBooksFresh : (books : Books) → (t : Trace Ssl) → Decidable (books.Fresh t)
  | _, [] => inferInstanceAs (Decidable True)
  | books, ⟨call, answer⟩ :: t =>
    have : Decidable (Books.Fresh
        ⟨books.log ++ acts books call answer, biosAfter books call answer⟩ t) :=
      decidableBooksFresh _ t
    inferInstanceAs (Decidable (_ ∧ _))

theorem Books.Fresh.path {books : Books} {t : Trace Ssl} (h : books.Fresh t) :
    booksEnv.Path books t (books.after t) := by
  induction t generalizing books with
  | nil => exact rfl
  | cons e t ih => exact ⟨_, ⟨h.1, rfl⟩, ih h.2⟩

/-- A library in which nothing fails; `next` is the next address to hand out. -/
def workingLibrary (next : ℕ) : (call : Ssl.Call) → Ssl.Resp call × ℕ
  | .calloc => (some next, next + 1)
  | .malloc size => (some (.zeros size.toNat next), next + 1)
  | .memFree _ => ((), next)
  | .ctxNew => (some next, next + 1)
  | .ctxFree _ => ((), next)
  | .ctxConfig _ _ => ((1 : Int), next)
  | .ctxSetVerify _ => ((), next)
  | .sslNew _ => (some next, next + 1)
  | .sslFree _ => ((), next)
  | .newBioPair => (some (next, next + 1), next + 2)
  | .bioFree _ => ((), next)
  | .setBio _ _ _ => ((), next)
  | .setConnectState _ => ((), next)
  | .setAcceptState _ => ((), next)
  | .doHandshake _ => ((1 : Int), next)
  | .getError _ _ => ((0 : Int), next)
  | .version _ => (tls13Version, next)
  | .cipherName _ => ("TLS_AES_128_GCM_SHA256", next)
  | .write _ _ num _ => ((num : Int), next)
  | .read _ _ num => (⟨num, List.replicate num 0, le_refl _, length_zeros num⟩, next)

def handshakeParams : Params :=
  ⟨"TLS_AES_128_GCM_SHA256", "cert.pem", "key.pem", .handshake, 0⟩

/-- The backend `create` makes of `handshakeParams` with the working library. -/
def handshakeBackend : Backend where
  self := 0
  clientCtx := some 1
  serverCtx := some 2
  transferPair := .null
  benchmark := .handshake
  cipher := "TLS_AES_128_GCM_SHA256"
  plaintext := ⟨some 3, [0]⟩
  received := ⟨some 4, [0]⟩
  messageSize := 0
  checksum := 0

def createTrace : Trace Ssl :=
  ((ofbTlsBackendCreate (some handshakeParams) (some none)).run workingLibrary 0).1

def useTrace : Trace Ssl :=
  ((useAndDestroy handshakeBackend [.verify, .runBatch 2]).run workingLibrary 5).1

theorem create_releasedOnce_handshake :
    ReleasedOnce ((Books.after ⟨[], fun _ => []⟩ createTrace).after useTrace).log := by
  have hrun : (ofbTlsBackendCreate (some handshakeParams) (some none)).Runs createTrace
      (0, some (some handshakeBackend)) :=
    Prog.runs_run (A := Ssl) workingLibrary
      (ofbTlsBackendCreate (some handshakeParams) (some none)) 0
  have hpath : booksEnv.Path ⟨[], fun _ => []⟩ createTrace
      (Books.after ⟨[], fun _ => []⟩ createTrace) := Books.Fresh.path (by decide)
  have huse : (useAndDestroy handshakeBackend [.verify, .runBatch 2]).Runs useTrace [0, 0] :=
    Prog.runs_run (A := Ssl) workingLibrary
      (useAndDestroy handshakeBackend [.verify, .runBatch 2]) 5
  rcases create_releasedOnce _ _ _ hrun hpath with ⟨h, -⟩ | ⟨state, h, hall⟩
  · exact absurd h (by decide)
  · cases h
    exact hall _ useTrace [0, 0] _ huse (Books.Fresh.path (by decide))

end OfbBench.Tls
