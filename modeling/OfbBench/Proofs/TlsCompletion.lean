import OfbBench.Proofs.Completion
import OfbBench.Proofs.Transfer

/-!
# The TLS benchmark completes

The peers of a connection finish their handshake in fewer than 10000 steps that have to wait, and
what the client writes reaches the server (`peerEnv`); nothing else fails. Then each selected case
takes all its samples, and the exit status is 0 (`tls_completes`).

The results about transfers are those of the queue alone (`wp_of_queue`).
-/

namespace OfbBench.Tls

open Prog

/-! ## The library -/

/-- What a connection has come to: the cipher its contexts are set to, the handshake steps that had
to wait, and the bytes on their way to the server. -/
structure Connection where
  cipher : String
  tried : ℕ
  queue : List UInt8

def setCipher (cipher : String) : Config → String
  | .setCiphersuites suites => suites
  | _ => cipher

/-- The library where nothing fails, with one pair of peers at a time. -/
def peerEnv : Env Ssl Connection where
  pre s call :=
    match call with
    | .write _ _ num data => s.queue = [] ∧ 1 ≤ num ∧ num ≤ recordSize ∧ data.length = num
    | _ => True
  step s call answer s' :=
    match call, answer with
    | .calloc, ptr => ptr ≠ none ∧ s' = s
    | .malloc _, block => block ≠ none ∧ s' = s
    | .ctxNew, ctx => ctx ≠ none ∧ s' = s
    | .ctxConfig _ config, rc => rc = 1 ∧ s' = { s with cipher := setCipher s.cipher config }
    | .sslNew _, ssl => ssl ≠ none ∧ s' = { s with tried := 0, queue := [] }
    | .newBioPair, bios => bios ≠ none ∧ s' = s
    | .doHandshake _, rc => (rc = 1 ∧ s' = s) ∨
      (rc ≠ 1 ∧ s.tried + 1 < 10000 ∧ s' = { s with tried := s.tried + 1 })
    | .getError _ _, error => (error = errorWantRead ∨ error = errorWantWrite) ∧ s' = s
    | .version _, version => version = tls13Version ∧ s' = s
    | .cipherName _, name => name = s.cipher ∧ s' = s
    | .write _ _ _ data, result => Accepts s.queue data result s'.queue ∧ s'.cipher = s.cipher
    | .read _ _ num, answer => Delivers s.queue num answer s'.queue ∧ s'.cipher = s.cipher
    | _, _ => s' = s

section Calls

variable {s : Connection}

/-- A call that changes nothing. -/
theorem wp_quiet {call : Ssl.Call} {Q : Ssl.Resp call → Connection → Prop}
    (hpre : peerEnv.pre s call) (hstep : ∀ answer s', peerEnv.step s call answer s' → s' = s)
    (hQ : ∀ answer, peerEnv.step s call answer s → Q answer s) :
    peerEnv.wp (Prog.ask (A := Ssl) call) Q s := by
  refine ⟨hpre, fun answer s' h => ?_⟩
  obtain rfl := hstep answer s' h
  exact hQ answer h

theorem wp_tlsPairDestroy_peer {pair : TlsPair} :
    peerEnv.wp (tlsPairDestroy pair) (fun _ s' => s' = s) s := by
  unfold tlsPairDestroy
  rw [Env.wp_bind]
  refine wp_quiet trivial (fun _ _ h => h) fun _ _ => ?_
  rw [Env.wp_bind]
  exact wp_quiet trivial (fun _ _ h => h) fun _ _ => rfl

/-! ## The handshake -/

/-- A step finishes its side, or it is one more that has to wait. -/
theorem wp_handshakeStep_peer {ssl : Option Ptr} {finished : Bool} :
    peerEnv.wp (handshakeStep ssl finished) (fun out s' => out.1 = 0 ∧
      ((out.2 = true ∧ s' = s) ∨ (out.2 = false ∧ s.tried + 1 < 10000 ∧
        s' = { s with tried := s.tried + 1 }))) s := by
  unfold handshakeStep
  split_ifs with hfinished
  · exact ⟨rfl, .inl ⟨hfinished, rfl⟩⟩
  have hfalse : finished = false := by simpa using hfinished
  rw [Env.wp_bind]
  refine ⟨trivial, fun rc s₁ hrc => ?_⟩
  rw [Env.wp_ret]
  rcases hrc with ⟨rfl, rfl⟩ | ⟨hne, htried, rfl⟩
  · rw [if_pos rfl]
    exact ⟨rfl, .inl ⟨rfl, rfl⟩⟩
  · rw [if_neg hne, Env.wp_bind]
    refine wp_quiet trivial (fun _ _ h => h.2) fun error herror => ?_
    rw [if_neg (fun h => herror.1.elim h.1 h.2)]
    exact ⟨rfl, .inr ⟨hfalse, htried, rfl⟩⟩

/-- As long as there are attempts for every step that may still have to wait. -/
theorem wp_handshakeLoop_peer {pair : TlsPair} {attempts : ℕ} {clientFinished serverFinished : Bool}
    (h : 10000 ≤ s.tried + attempts) (htried : s.tried < 10000) :
    peerEnv.wp (handshakeLoop pair attempts clientFinished serverFinished)
      (fun out s' => out = (0, pair) ∧ s'.cipher = s.cipher ∧ s'.queue = s.queue) s := by
  induction attempts generalizing s clientFinished serverFinished with
  | zero => omega
  | succ attempts ih =>
    have hnext : ∀ (client server : Bool) (s₁ : Connection), s₁.cipher = s.cipher →
        s₁.queue = s.queue → s.tried < s₁.tried → s₁.tried < 10000 →
        peerEnv.wp (handshakeLoop pair attempts client server)
          (fun out s' => out = (0, pair) ∧ s'.cipher = s.cipher ∧ s'.queue = s.queue) s₁ := by
      intro client server s₁ hcipher hqueue hlt h₁
      rw [← hcipher, ← hqueue]
      exact ih (by omega) h₁
    unfold handshakeLoop
    rw [Env.wp_bind]
    refine Env.wp_mono _ wp_handshakeStep_peer ?_
    rintro ⟨rc, client⟩ s₁ ⟨rfl, hclient⟩
    simp only at hclient ⊢
    rw [if_neg (not_not.2 rfl), Env.wp_bind]
    refine Env.wp_mono _ wp_handshakeStep_peer ?_
    rintro ⟨rc, server⟩ s₂ ⟨rfl, hserver⟩
    simp only at hserver ⊢
    rw [if_neg (not_not.2 rfl)]
    rcases hclient with ⟨rfl, rfl⟩ | ⟨rfl, h₁, rfl⟩
    · rcases hserver with ⟨rfl, rfl⟩ | ⟨rfl, h₂, rfl⟩
      · rw [if_pos ⟨rfl, rfl⟩]
        exact ⟨rfl, rfl, rfl⟩
      · rw [if_neg (by simp)]
        exact hnext _ _ _ rfl rfl (Nat.lt_succ_self _) h₂
    · rw [if_neg (by simp)]
      rcases hserver with ⟨-, rfl⟩ | ⟨-, h₂, rfl⟩
      · exact hnext _ _ _ rfl rfl (Nat.lt_succ_self _) h₁
      · exact hnext _ _ _ rfl rfl (Nat.lt_succ_of_lt (Nat.lt_succ_self _)) h₂

theorem wp_tlsPairCreate_peer {clientCtx serverCtx : Option Ptr} :
    peerEnv.wp (tlsPairCreate clientCtx serverCtx)
      (fun out s' => out.1 = 0 ∧ s'.cipher = s.cipher ∧ s'.queue = []) s := by
  have hloop : ∀ (pair : TlsPair) (s₁ : Connection), s₁.tried = 0 → s₁.cipher = s.cipher →
      s₁.queue = [] → peerEnv.wp (handshakeLoop pair 10000 false false)
        (fun out s' => out.1 = 0 ∧ s'.cipher = s.cipher ∧ s'.queue = []) s₁ := by
    intro pair s₁ htried hcipher hqueue
    refine Env.wp_mono _ (wp_handshakeLoop_peer (by omega) (by omega)) ?_
    rintro out s' ⟨rfl, hcipher', hqueue'⟩
    exact ⟨rfl, hcipher'.trans hcipher, hqueue'.trans hqueue⟩
  unfold tlsPairCreate
  rw [Env.wp_bind]
  refine ⟨trivial, ?_⟩
  rintro (_ | client) s₁ ⟨hclient, rfl⟩
  · exact absurd rfl hclient
  rw [Env.wp_ret, Env.wp_bind]
  refine ⟨trivial, ?_⟩
  rintro (_ | server) s₂ ⟨hserver, rfl⟩
  · exact absurd rfl hserver
  unfold newBios
  rw [Env.wp_ret, if_neg (by simp), Env.wp_bind]
  refine wp_quiet trivial (fun _ _ h => h.2) ?_
  rintro (_ | ⟨clientBio, serverBio⟩) hbios
  · exact absurd rfl hbios.1
  simp only
  rw [Env.wp_bind]
  refine wp_quiet trivial (fun _ _ h => h) fun _ _ => ?_
  rw [Env.wp_bind]
  refine wp_quiet trivial (fun _ _ h => h) fun _ _ => ?_
  rw [Env.wp_bind]
  refine wp_quiet trivial (fun _ _ h => h) fun _ _ => ?_
  rw [Env.wp_bind]
  refine wp_quiet trivial (fun _ _ h => h) fun _ _ => ?_
  exact hloop _ _ rfl rfl rfl

/-! ## Transfers -/

/-- The calls on a connection. -/
def IsData : Ssl.Call → Prop
  | .version _ => True
  | .cipherName _ => True
  | .write _ _ _ _ => True
  | .read _ _ _ => True
  | _ => False

theorem onlyCalls_readChunk {server : Option Ptr} {offset chunk received : ℕ} {bytes : List UInt8} :
    (readChunk server offset chunk received bytes).OnlyCalls IsData := by
  induction hm : chunk - received using Nat.strongRecOn generalizing received bytes with
  | _ m ih =>
  rw [readChunk]
  split_ifs with h
  · refine OnlyCalls.bind (onlyCalls_ask trivial) fun answer => ?_
    split_ifs with hresult
    · trivial
    · exact ih _ (by omega) rfl
  · trivial

theorem onlyCalls_transferFrom {pair : TlsPair} {plaintext bytes : List UInt8} {n offset : ℕ} :
    (transferFrom pair plaintext n offset bytes).OnlyCalls IsData := by
  induction hm : n - offset using Nat.strongRecOn generalizing offset bytes with
  | _ m ih =>
  have hrecord : 0 < recordSize := by decide
  rw [transferFrom]
  split_ifs with h
  · refine OnlyCalls.bind (onlyCalls_ask trivial) fun result => ?_
    split_ifs with hresult
    · trivial
    refine OnlyCalls.bind onlyCalls_readChunk ?_
    rintro ⟨rc, bytes'⟩
    simp only
    split_ifs with hrc
    · trivial
    · exact ih _ (by omega) rfl
  · trivial

theorem onlyCalls_transferOnce {state : Backend} : (transferOnce state).OnlyCalls IsData :=
  OnlyCalls.bind onlyCalls_transferFrom fun _ => trivial

theorem onlyCalls_transferBatch {state : Backend} {iterations : ℕ} :
    (transferBatch state iterations).OnlyCalls IsData := by
  induction iterations generalizing state with
  | zero => trivial
  | succ iterations ih =>
    refine OnlyCalls.bind onlyCalls_transferOnce ?_
    rintro ⟨rc, state'⟩
    simp only
    split_ifs
    · trivial
    · exact ih

theorem onlyCalls_tlsPairMatches {pair : TlsPair} {cipher : String} :
    (tlsPairMatches pair cipher).OnlyCalls IsData := by
  refine OnlyCalls.bind (onlyCalls_ask trivial) fun _ => ?_
  split_ifs
  · trivial
  refine OnlyCalls.bind (onlyCalls_ask trivial) fun _ => ?_
  split_ifs
  · trivial
  refine OnlyCalls.bind (onlyCalls_ask trivial) fun _ => ?_
  split_ifs
  · trivial
  · exact OnlyCalls.bind (onlyCalls_ask trivial) fun _ => trivial

/-- A connection is a queue, and what a program achieves on the queue it achieves here. -/
theorem wp_of_queue {α : Type} {pair : TlsPair} {p : Prog Ssl α} {Q : α → List UInt8 → Prop}
    (hdata : p.OnlyCalls IsData) (h : (queueEnv pair s.cipher).wp p Q s.queue) :
    peerEnv.wp p (fun a s' => Q a s'.queue ∧ s'.cipher = s.cipher) s := by
  induction p generalizing s with
  | ret a => exact ⟨h, rfl⟩
  | call c k ih =>
    -- one step of the connection is one of its queue, and the cipher stays
    have hnext : ∀ r s', s'.cipher = s.cipher →
        (queueEnv pair s.cipher).step s.queue c r s'.queue →
        peerEnv.wp (k r) (fun a s' => Q a s'.queue ∧ s'.cipher = s.cipher) s' := by
      intro r s' hcipher hstep
      have hk := h.2 r s'.queue hstep
      rw [← hcipher] at hk ⊢
      exact ih r (hdata.2 r) hk
    cases c with
    | version ssl =>
      refine ⟨trivial, fun r s' hs => hnext r s' (by rw [hs.2]) ⟨fun _ => hs.1, by rw [hs.2]⟩⟩
    | cipherName ssl =>
      refine ⟨trivial, fun r s' hs => hnext r s' (by rw [hs.2]) ⟨fun _ => hs.1, by rw [hs.2]⟩⟩
    | write ssl offset num data =>
      exact ⟨h.1.2, fun r s' hs => hnext r s' hs.2 fun _ => hs.1⟩
    | read ssl offset num =>
      exact ⟨trivial, fun r s' hs => hnext r s' hs.2 fun _ => hs.1⟩
    | _ => exact hdata.1.elim

end Calls

/-! ## The backend -/

section Backend

variable {s : Connection} {state : Backend} {params : Params} {now : ℕ}

/-- What `create` makes a backend for. -/
def Params.Supported (params : Params) : Prop :=
  params.messageSize ≤ intMax ∧ (params.benchmark = .transfer → 0 < params.messageSize.toNat)

/-- The connection of a backend between its calls. -/
structure Ready (state : Backend) (s : Connection) : Prop where
  cipher : s.cipher = state.cipher
  transfer : state.benchmark = .transfer →
    IsTransfer state ∧ 0 < state.messageSize.toNat ∧ s.queue = []

/-- What `create` has allocated. -/
structure AllocatedFor (params : Params) (state : Backend) : Prop where
  clientCtx : state.clientCtx ≠ none
  serverCtx : state.serverCtx ≠ none
  plaintext : state.plaintext.ptr ≠ none
  received : state.received.ptr ≠ none
  cipher : state.cipher = params.cipher
  benchmark : state.benchmark = params.benchmark
  messageSize : state.messageSize = params.messageSize
  plaintext_length : params.messageSize.toNat ≤ state.plaintext.bytes.length
  received_length : params.messageSize.toNat ≤ state.received.bytes.length

theorem wp_allocate_peer {self : Ptr} :
    peerEnv.wp (allocate self params) (fun state s' => AllocatedFor params state ∧ s' = s) s := by
  unfold allocate
  rw [Env.wp_bind]
  refine wp_quiet trivial (fun _ _ h => h.2) fun clientCtx hclient => ?_
  rw [Env.wp_bind]
  refine wp_quiet trivial (fun _ _ h => h.2) fun serverCtx hserver => ?_
  rw [Env.wp_bind]
  refine wp_quiet trivial (fun _ _ h => h.2) fun plaintext hplain => ?_
  rw [Env.wp_bind]
  refine wp_quiet trivial (fun _ _ h => h.2) fun received hreceived => ?_
  have hp := buffer_ptr_ne_none hplain.1
  have hr := buffer_ptr_ne_none hreceived.1
  exact ⟨⟨hclient.1, hserver.1, hp, hr, rfl, rfl, rfl, buffer_room hp, buffer_room hr⟩, rfl⟩

theorem wp_anyRefused_peer {configs : List (Option Ptr × Config)} :
    peerEnv.wp (anyRefused configs) (fun refused s' => refused = false ∧ s' = { s with
      cipher := configs.foldl (fun cipher config => setCipher cipher config.2) s.cipher }) s := by
  induction configs generalizing s with
  | nil => exact ⟨rfl, rfl⟩
  | cons config configs ih =>
    obtain ⟨ctx, config⟩ := config
    unfold anyRefused
    rw [Env.wp_bind]
    refine ⟨trivial, ?_⟩
    rintro _ s₁ ⟨rfl, rfl⟩
    rw [Env.wp_ret, if_neg (not_not.2 rfl)]
    exact ih (s := { s with cipher := setCipher s.cipher config })

theorem wp_unusable_peer (h : AllocatedFor params state) :
    peerEnv.wp (unusable state params)
      (fun refused s' => refused = false ∧ s' = { s with cipher := params.cipher }) s := by
  unfold unusable
  rw [if_neg (by simp only [h.clientCtx, h.serverCtx, h.plaintext, h.received, or_self,
    not_false_eq_true])]
  exact wp_anyRefused_peer

theorem AllocatedFor.isTransfer (h : AllocatedFor params state) (hb : params.benchmark = .transfer)
    (pair : TlsPair) : IsTransfer
      { state.fillPlaintext params.messageSize.toNat with transferPair := pair } where
  benchmark := h.benchmark.trans hb
  plaintext := by
    simp only [Backend.fillPlaintext, length_fill, h.messageSize]
    exact h.plaintext_length
  received := by
    simp only [Backend.fillPlaintext, h.messageSize]
    exact h.received_length

theorem wp_setUp_peer {self : Ptr} {cell : Option Cell} (hparams : params.Supported) :
    peerEnv.wp (setUp self params cell)
      (fun out s' => ∃ state, out = (0, some (some state)) ∧ Ready state s') s := by
  unfold setUp
  rw [Env.wp_bind]
  refine Env.wp_mono _ wp_allocate_peer ?_
  rintro state _ ⟨h, rfl⟩
  rw [Env.wp_bind]
  refine Env.wp_mono _ (wp_unusable_peer h) ?_
  rintro _ _ ⟨rfl, rfl⟩
  rw [if_neg (by decide), Env.wp_bind]
  refine wp_quiet trivial (fun _ _ h => h) fun _ _ => ?_
  simp only
  by_cases hb : params.benchmark = .transfer
  · rw [if_pos hb, Env.wp_bind]
    refine Env.wp_mono _ wp_tlsPairCreate_peer ?_
    rintro ⟨rc, pair⟩ s' ⟨rfl, hcipher, hqueue⟩
    simp only
    rw [if_neg (not_not.2 rfl)]
    exact ⟨_, rfl, hcipher.trans h.cipher.symm, fun _ => ⟨h.isTransfer hb pair,
      h.messageSize.symm ▸ hparams.2 hb, hqueue⟩⟩
  · rw [if_neg hb]
    exact ⟨_, rfl, h.cipher.symm, fun hb' => absurd (h.benchmark.symm.trans hb') hb⟩

theorem wp_create_peer {cell : Cell} (hparams : params.Supported) :
    peerEnv.wp (ofbTlsBackendCreate (some params) (some cell))
      (fun out s' => ∃ state, out = (0, some (some state)) ∧ Ready state s') s := by
  unfold ofbTlsBackendCreate
  simp only
  rw [if_neg (UInt64.not_lt.2 hparams.1), Env.wp_bind]
  refine wp_quiet trivial (fun _ _ h => h.2) ?_
  rintro (_ | self) hself
  · exact absurd rfl hself.1
  · exact wp_setUp_peer hparams

theorem Intact.self {init : Backend} (h : Intact init state) : state.self = init.self := by
  rw [h.same]

theorem Intact.benchmark {init : Backend} (h : Intact init state) :
    state.benchmark = init.benchmark := by rw [h.same]

/-- A connection is ready again after a call that left its queue empty. -/
theorem Ready.intact {init : Backend} {s' : Connection} (h : Ready init s)
    (hi : Intact init state) (hcipher : s'.cipher = s.cipher) (hqueue : s'.queue = []) :
    Ready state s' where
  cipher := by rw [hcipher, h.cipher, hi.cipher]
  transfer hb := by
    obtain ⟨ht, hsize, -⟩ := h.transfer (hi.benchmark.symm.trans hb)
    exact ⟨hi.isTransfer ht, by rw [hi.messageSize]; exact hsize, hqueue⟩

theorem backendEnv_of_ready (h : Ready state s) :
    backendEnv state = queueEnv state.transferPair s.cipher := by
  unfold backendEnv
  rw [h.cipher]

theorem wp_verify_transfer (h : Ready state s) (hb : state.benchmark = .transfer) :
    peerEnv.wp (ofbTlsBackendVerify state)
      (fun out s' => out.1 = 0 ∧ out.2.self = state.self ∧ Ready out.2 s') s := by
  obtain ⟨ht, hsize, hqueue⟩ := h.transfer hb
  have hdata : (ofbTlsBackendVerify state).OnlyCalls IsData := by
    unfold ofbTlsBackendVerify
    rw [hb]
    refine OnlyCalls.bind onlyCalls_tlsPairMatches fun matched => ?_
    cases matched with
    | false =>
      rw [if_pos (by simp)]
      trivial
    | true =>
    rw [if_neg (by simp)]
    refine OnlyCalls.bind onlyCalls_transferOnce ?_
    rintro ⟨rc, state'⟩
    simp only
    split_ifs
    · trivial
    · trivial
    · trivial
  have hverify := wp_verify ht
  rw [backendEnv_of_ready h, ← hqueue] at hverify
  refine Env.wp_mono _ (wp_of_queue hdata hverify) ?_
  rintro ⟨rc, state'⟩ s' ⟨⟨hrc, hsettled⟩, hcipher⟩
  exact ⟨hrc, hsettled.intact.self, h.intact hsettled.intact hcipher hsettled.queue⟩

theorem Ready.handshake {s' : Connection} (h : Ready state s) (hb : state.benchmark = .handshake)
    (hcipher : s'.cipher = s.cipher) : Ready state s' where
  cipher := hcipher.trans h.cipher
  transfer hb' := by rw [hb] at hb'; cases hb'

theorem wp_verify_handshake (h : Ready state s) (hb : state.benchmark = .handshake) :
    peerEnv.wp (ofbTlsBackendVerify state)
      (fun out s' => out.1 = 0 ∧ out.2.self = state.self ∧ Ready out.2 s') s := by
  unfold ofbTlsBackendVerify
  rw [hb]
  simp only
  rw [Env.wp_bind]
  refine Env.wp_mono _ wp_tlsPairCreate_peer ?_
  rintro ⟨rc, pair⟩ s₁ ⟨rfl, hcipher, -⟩
  simp only
  rw [if_neg (not_not.2 rfl), Env.wp_bind]
  have hmatches : (queueEnv pair s₁.cipher).wp (tlsPairMatches pair state.cipher)
      (fun matched _ => matched = true) s₁.queue := by
    rw [← h.cipher, ← hcipher]
    exact wp_tlsPairMatches rfl
  refine Env.wp_mono _ (wp_of_queue onlyCalls_tlsPairMatches hmatches) ?_
  rintro matched s₂ ⟨rfl, hcipher₂⟩
  rw [if_neg (by simp), Env.wp_bind]
  refine Env.wp_mono _ wp_tlsPairDestroy_peer ?_
  rintro _ _ rfl
  exact ⟨rfl, rfl, h.handshake hb (hcipher₂.trans hcipher)⟩

theorem wp_handshakeBatch_peer {iterations : ℕ} :
    peerEnv.wp (handshakeBatch state iterations)
      (fun rc s' => rc = 0 ∧ s'.cipher = s.cipher) s := by
  induction iterations generalizing s with
  | zero => exact ⟨rfl, rfl⟩
  | succ iterations ih =>
    unfold handshakeBatch
    rw [Env.wp_bind]
    refine Env.wp_mono _ wp_tlsPairCreate_peer ?_
    rintro ⟨rc, pair⟩ s₁ ⟨rfl, hcipher, -⟩
    simp only
    rw [if_neg (not_not.2 rfl), Env.wp_bind]
    refine Env.wp_mono _ wp_tlsPairDestroy_peer ?_
    rintro _ _ rfl
    rw [← hcipher]
    exact ih

theorem wp_runBatch_handshake {iterations : UInt64} (h : Ready state s)
    (hb : state.benchmark = .handshake) :
    peerEnv.wp (ofbTlsBackendRunBatch state iterations) (fun out s' =>
      (0 < iterations.toNat → out.1 = 0) ∧ out.2.self = state.self ∧ Ready out.2 s') s := by
  unfold ofbTlsBackendRunBatch
  rw [hb]
  simp only
  rw [Env.wp_bind]
  refine Env.wp_mono _ wp_handshakeBatch_peer ?_
  rintro rc s' ⟨rfl, hcipher⟩
  exact ⟨fun _ => rfl, rfl, h.handshake hb hcipher⟩

/-- A batch that transfers at all has the message in its buffer. -/
theorem wp_runBatch_transfer {iterations : UInt64} (h : Ready state s)
    (hb : state.benchmark = .transfer) :
    peerEnv.wp (ofbTlsBackendRunBatch state iterations) (fun out s' =>
      (0 < iterations.toNat → out.1 = 0) ∧ out.2.self = state.self ∧ Ready out.2 s') s := by
  obtain ⟨ht, hsize, hqueue⟩ := h.transfer hb
  have hbatch := wp_transferBatch ht iterations.toNat
  rw [backendEnv_of_ready h, ← hqueue] at hbatch
  unfold ofbTlsBackendRunBatch
  rw [hb]
  simp only
  rw [Env.wp_bind]
  refine Env.wp_mono _ (wp_of_queue onlyCalls_transferBatch hbatch) ?_
  rintro ⟨rc, state'⟩ s' ⟨⟨hrc, hi, hq, hd⟩, hcipher⟩
  obtain rfl : rc = 0 := hrc
  simp only
  rw [if_neg (not_not.2 rfl)]
  by_cases hmem : memEq state'.plaintext.bytes state'.received.bytes state'.messageSize.toNat = true
  · rw [if_pos hmem]
    exact ⟨fun _ => rfl, hi.self, h.intact (hi.withChecksum _) hcipher (hq.trans hqueue)⟩
  · rw [if_neg hmem]
    exact ⟨fun hn => absurd (memEq_of_delivered (hd (.inl hn))) hmem, hi.self,
      h.intact hi hcipher (hq.trans hqueue)⟩

theorem wp_destroy_peer :
    peerEnv.wp (ofbTlsBackendDestroy (some state)) (fun _ _ => True) s := by
  unfold ofbTlsBackendDestroy
  rw [Env.wp_bind]
  refine Env.wp_mono _ wp_tlsPairDestroy_peer ?_
  rintro _ _ rfl
  rw [Env.wp_bind]
  refine wp_quiet trivial (fun _ _ h => h) fun _ _ => ?_
  rw [Env.wp_bind]
  refine wp_quiet trivial (fun _ _ h => h) fun _ _ => ?_
  rw [Env.wp_bind]
  refine wp_quiet trivial (fun _ _ h => h) fun _ _ => ?_
  rw [Env.wp_bind]
  refine wp_quiet trivial (fun _ _ h => h) fun _ _ => ?_
  exact wp_quiet trivial (fun _ _ h => h) fun _ _ => trivial

/-! ### The time of a batch -/

/-- A handshake takes a nanosecond, and so does a write. -/
def peerCost : Ssl.Call → ℕ
  | .doHandshake _ => 1
  | .write _ _ _ _ => 1
  | _ => 0

theorem wp_handshakeStep_metered {ssl : Option Ptr} :
    (Env.metered peerCost).wp (handshakeStep ssl false) (fun _ now' => now + 1 ≤ now') now := by
  unfold handshakeStep
  rw [if_neg (by decide), Env.wp_bind]
  refine ⟨trivial, fun rc now₁ hstep => ?_⟩
  have hcost : now + 1 ≤ now₁ := hstep.1
  rw [Env.wp_ret]
  exact Env.wp_mono _ (Env.wp_timed_le _ now₁) fun _ _ => hcost.trans

theorem wp_handshakeLoop_metered {pair : TlsPair} {attempts : ℕ} {serverFinished : Bool} :
    (Env.metered peerCost).wp (handshakeLoop pair attempts false serverFinished)
      (fun out now' => out.1 = 0 → now + 1 ≤ now') now := by
  cases attempts with
  | zero =>
    unfold handshakeLoop
    rw [Env.wp_bind]
    exact Env.wp_mono _ (Env.wp_timed_le _ now) fun _ _ _ h =>
      absurd (show (-1 : ℤ) = 0 from h) (by decide)
  | succ attempts =>
    unfold handshakeLoop
    rw [Env.wp_bind]
    refine Env.wp_mono _ wp_handshakeStep_metered fun out now₁ hnow => ?_
    exact Env.wp_mono _ (Env.wp_timed_le _ now₁) fun _ _ hle _ => hnow.trans hle

theorem wp_tlsPairCreate_metered {clientCtx serverCtx : Option Ptr} :
    (Env.metered peerCost).wp (tlsPairCreate clientCtx serverCtx)
      (fun out now' => out.1 = 0 → now + 1 ≤ now') now := by
  unfold tlsPairCreate
  rw [Env.wp_bind]
  refine Env.wp_mono _ (Env.wp_timed_le _ now) fun client now₁ h₁ => ?_
  rw [Env.wp_bind]
  refine Env.wp_mono _ (Env.wp_timed_le _ now₁) fun server now₂ h₂ => ?_
  rw [Env.wp_bind]
  refine Env.wp_mono _ (Env.wp_timed_le _ now₂) fun bios now₃ h₃ => ?_
  have hnow : now ≤ now₃ := h₁.trans (h₂.trans h₃)
  rcases bios with _ | ⟨clientBio, serverBio⟩
  · simp only
    rw [Env.wp_bind]
    refine Env.wp_mono _ (Env.wp_timed_le _ now₃) fun _ now₄ _ => ?_
    rw [Env.wp_bind]
    refine Env.wp_mono _ (Env.wp_timed_le _ now₄) fun _ now₅ _ => ?_
    rw [Env.wp_bind]
    refine Env.wp_mono _ (Env.wp_timed_le _ now₅) fun _ _ _ h => ?_
    exact absurd (show (-1 : ℤ) = 0 from h) (by decide)
  · simp only
    rw [Env.wp_bind]
    refine Env.wp_mono _ (Env.wp_timed_le _ now₃) fun _ now₄ h₄ => ?_
    rw [Env.wp_bind]
    refine Env.wp_mono _ (Env.wp_timed_le _ now₄) fun _ now₅ h₅ => ?_
    rw [Env.wp_bind]
    refine Env.wp_mono _ (Env.wp_timed_le _ now₅) fun _ now₆ h₆ => ?_
    rw [Env.wp_bind]
    refine Env.wp_mono _ (Env.wp_timed_le _ now₆) fun _ now₇ h₇ => ?_
    refine Env.wp_mono _ wp_handshakeLoop_metered fun _ now' h hrc => ?_
    have hlast := h hrc
    omega

theorem wp_handshakeBatch_metered {iterations : ℕ} :
    (Env.metered peerCost).wp (handshakeBatch state iterations)
      (fun rc now' => rc = 0 → now + iterations ≤ now') now := by
  induction iterations generalizing now with
  | zero => exact fun _ => le_refl now
  | succ iterations ih =>
    unfold handshakeBatch
    rw [Env.wp_bind]
    refine Env.wp_mono _ wp_tlsPairCreate_metered ?_
    rintro ⟨rc, pair⟩ now₁ h₁
    simp only
    split_ifs with hrc
    · exact fun h => absurd (show (-1 : ℤ) = 0 from h) (by decide)
    rw [Env.wp_bind]
    refine Env.wp_mono _ (Env.wp_timed_le _ now₁) fun _ now₂ h₂ => ?_
    refine Env.wp_mono _ ih fun rc now' h hrc' => ?_
    have hfirst := h₁ (not_not.1 hrc)
    have hlast := h hrc'
    omega

theorem wp_transferOnce_metered (hsize : 0 < state.messageSize.toNat) :
    (Env.metered peerCost).wp (transferOnce state)
      (fun out now' => out.2.messageSize = state.messageSize ∧ now + 1 ≤ now') now := by
  unfold transferOnce
  rw [transferFrom, dif_pos hsize]
  simp only [Env.wp_bind]
  refine ⟨trivial, fun result now₁ hstep => ?_⟩
  have hcost : now + 1 ≤ now₁ := hstep.1
  rw [Env.wp_ret]
  exact Env.wp_mono _ (Env.wp_timed_le _ now₁) fun _ _ hle => ⟨rfl, hcost.trans hle⟩

theorem wp_transferBatch_metered {iterations : ℕ} (hsize : 0 < state.messageSize.toNat) :
    (Env.metered peerCost).wp (transferBatch state iterations)
      (fun out now' => out.1 = 0 → now + iterations ≤ now') now := by
  induction iterations generalizing state now with
  | zero => exact fun _ => le_refl now
  | succ iterations ih =>
    unfold transferBatch
    rw [Env.wp_bind]
    refine Env.wp_mono _ (wp_transferOnce_metered hsize) ?_
    rintro ⟨rc, state'⟩ now₁ ⟨hsame, h₁⟩
    simp only at hsame ⊢
    split_ifs with hrc
    · exact fun h => absurd (show (-1 : ℤ) = 0 from h) (by decide)
    refine Env.wp_mono _ (ih (hsame.symm ▸ hsize)) fun out now' h hrc' => ?_
    have hlast := h hrc'
    omega

theorem wp_runBatch_metered {iterations : UInt64}
    (hsize : state.benchmark = .transfer → 0 < state.messageSize.toNat) :
    (Env.metered peerCost).wp (ofbTlsBackendRunBatch state iterations)
      (fun out now' => out.1 = 0 → now + iterations.toNat ≤ now') now := by
  unfold ofbTlsBackendRunBatch
  cases hb : state.benchmark with
  | handshake =>
    simp only
    rw [Env.wp_bind]
    exact Env.wp_mono _ wp_handshakeBatch_metered fun _ _ h => h
  | transfer =>
    simp only
    rw [Env.wp_bind]
    refine Env.wp_mono _ (wp_transferBatch_metered (hsize hb)) ?_
    rintro ⟨rc, state'⟩ now' h
    simp only
    by_cases hrc : rc = 0
    · rw [if_neg (not_not.2 hrc)]
      exact Env.wp_mono _ (Env.wp_timed_le _ now') fun _ _ hle _ => (h hrc).trans hle
    · rw [if_pos hrc]
      exact fun h => absurd (show (-1 : ℤ) = 0 from h) (by decide)

/-- A backend that fails no call, if its library is this one. -/
theorem implementation_faultless :
    implementation.Faultless peerEnv peerCost Params.Supported (fun _ => True) Ready where
  create params s h _ := by
    refine Env.wp_mono _ (wp_create_peer h) ?_
    rintro out s' ⟨state, rfl, hready⟩
    exact ⟨state, rfl, hready⟩
  verify state unset s _ h := by
    cases hb : state.benchmark with
    | handshake => exact wp_verify_handshake h hb
    | transfer => exact wp_verify_transfer h hb
  runBatch state n s h := by
    cases hb : state.benchmark with
    | handshake => exact wp_runBatch_handshake h hb
    | transfer => exact wp_runBatch_transfer h hb
  destroy state s _ := wp_destroy_peer
  destroy_none _ := rfl
  elapsed state n s now h := wp_runBatch_metered fun hb => (h.transfer hb).2.1

end Backend

/-! ## The program -/

/-- What a row says of which sample it is. -/
def Row.label (row : Row) : Benchmark × String × UInt64 × ℕ :=
  (row.benchmark, row.cipher, row.messageBytes, row.sample)

/-- The samples of a case. -/
def Case.labels (case : Case) : List (Benchmark × String × UInt64 × ℕ) :=
  (List.range case.options.samples.toNat).map fun i =>
    (case.benchmark, case.cipher, case.messageSize, i)

theorem two_le_sampleNs {options options' : Options} {args : List String}
    (h : parseArgs options args = .run options') (hs : 2 ≤ options.sampleNs.toNat) :
    2 ≤ options'.sampleNs.toNat := by
  fun_induction parseArgs options args with
  | case1 options =>
    obtain rfl := Parsed.run.inj h
    exact hs
  | case5 | case6 | case7 | case8 | case9 | case11 | case13 =>
    rename_i ih
    exact ih h hs
  | case15 options value rest rc parsed hp hok =>
    rename_i ih
    refine ih h ?_
    push Not at hok
    have hne : parsed.toNat ≠ 0 := fun h0 => hok.2.1 (UInt64.toNat_inj.1 h0)
    have hns := toNat_sampleMs (UInt64.not_lt.1 hok.2.2)
    simp only [hns]
    omega
  | _ => cases h

section Complete

variable {rnd : ℚ → ℚ} {build : Build} {program : String} {args : List String} {options : Options}

theorem runCase_completes (hrnd : Rounds rnd) {case : Case}
    (hfits : case.benchmark = .transfer →
      32 * case.options.sampleNs.toNat * case.messageSize.toNat ≤ uint64Max.toNat)
    (htarget : 2 ≤ case.options.sampleNs.toNat) :
    Completes Row.label (mainCall rnd build (.runCase case)) case.labels := by
  intro log now
  change (succeedingEnv Row.label).wp (runCase rnd build case.options case.cipher case.benchmark
    case.messageSize) _ _
  unfold runCase calibrate runTimed
  refine wp_caseWith_ok (fun _ _ => Or.inl) hrnd (fun h => hfits (of_decide_eq_true h)) ?_ ?_
    fun now' => Or.inr ⟨rfl, rfl⟩
  · have hstart : (startCount case.benchmark).1.toNat ≤ 16 := by
      cases case.benchmark with
      | handshake => decide
      | transfer => decide
    omega
  · exact fun _ _ => rfl

/-- Options with which each selected case can take its samples. -/
structure Runnable (options : Options) : Prop where
  benchmark : options.benchmark = "all" ∨ options.benchmark = "handshake" ∨
    options.benchmark = "transfer"
  format : options.format = "jsonl" ∨ options.format = "text"
  cipher : ∃ cipher ∈ ciphers, options.cipher = "all" ∨ options.cipher = cipher
  size : ∀ size ∈ sizes options, 0 < size.toNat ∧ size ≤ intMax ∧
    32 * options.sampleNs.toNat * size.toNat ≤ uint64Max.toNat

/-- The exit status of the program is that of its sweep. -/
theorem main_sweeps (hargs : parseArgs (defaultOptions build) args = .run options)
    (h : Runnable options) : Sweeps (main build program args) (selectedCases options) := by
  have hbenchmark := h.benchmark
  have hformat := h.format
  intro s status hrun
  unfold main at hrun
  rw [hargs] at hrun
  replace hrun : (runMain options).Runs s status := hrun
  unfold runMain at hrun
  rw [if_neg (by tauto)] at hrun
  obtain ⟨s₁, s₂, ⟨rc, matched⟩, rfl, hm, hrun⟩ := Prog.runs_bind.1 hrun
  obtain ⟨hsweep, hmatched⟩ := cipherLoop_sweep hm
  simp only [] at hrun
  have hall : s₂ = [] ∧ status = rc := by
    by_cases hrc : rc ≠ 0
    · rwa [if_pos hrc] at hrun
    · rw [if_neg hrc, if_pos ((hmatched (not_not.1 hrc)).2 (.inr h.cipher))] at hrun
      exact ⟨hrun.1, hrun.2.trans (not_not.1 hrc).symm⟩
  rw [hall.1, hall.2, List.append_nil]
  exact hsweep

theorem case_completes (hrnd : Rounds rnd)
    (hargs : parseArgs (defaultOptions build) args = .run options) (h : Runnable options)
    {case : Case} (hcase : case ∈ selectedCases options) :
    Completes Row.label (mainCall rnd build (.runCase case)) case.labels := by
  have hoptions := options_of_mem hcase
  have hdefault : 2 ≤ (250000000 : UInt64).toNat := by decide
  obtain ⟨cipher, -, hcase⟩ := List.mem_flatMap.1 hcase
  refine runCase_completes hrnd (fun hb => ?_)
    (by rw [hoptions]; exact two_le_sampleNs hargs hdefault)
  rw [hoptions]
  rcases mem_casesOf.1 hcase with ⟨-, rfl⟩ | ⟨-, size, hsize, rfl⟩
  · cases hb
  · exact (h.size size hsize).2.2

/-- It creates backends for what its options say only. -/
theorem main_onlySupported (hargs : parseArgs (defaultOptions build) args = .run options)
    (h : Runnable options) : ((main build program args).link (mainCall rnd build)).OnlyCalls
      (DriverOnly Params.Supported fun _ => True) := by
  obtain ⟨rfl, hrun, -⟩ := parseArgs_read hargs
  refine (onlyCalls_main hrun).link (onlyCalls_mainCall ?_ fun _ _ _ _ _ => trivial)
  rintro case ⟨-, -, ⟨hb, hzero⟩ | ⟨-, hsize⟩⟩
  · have hle : case.messageSize ≤ intMax := by
      rw [hzero]
      decide
    exact ⟨hle, fun hb' => absurd (hb.symm.trans hb') (by decide)⟩
  · exact ⟨(h.size _ hsize).2.1, fun _ => (h.size _ hsize).1⟩

end Complete

end OfbBench.Tls

namespace OfbBench

/-- Where nothing fails, the TLS benchmark takes every sample of every selected case and exits with
0, if the clock has not shown all it can. -/
theorem tls_completes (rnd : ℚ → ℚ) (hrnd : Rounds rnd) (build : Build) (program : String)
    (args : List String) {options : Tls.Options}
    (hargs : Tls.parseArgs (Tls.defaultOptions build) args = .run options)
    (hoptions : Tls.Runnable options) (connection : Tls.Connection) (now : ℕ)
    {t : Trace (Process Tls.Ssl Tls.Row)} {status : Int} {s}
    (hrun : (Tls.executable rnd build program args).Runs t status)
    (hpath : (processEnv Tls.peerEnv Tls.peerCost Tls.Row.label).Path
      ((connection, ()), ([], now)) t s) :
    2 ^ 64 ≤ s.2.2 ∨ (status = 0 ∧
      (printedRows t).map Tls.Row.label = (Tls.selectedCases options).flatMap Tls.Case.labels) := by
  have hmain : Completes Tls.Row.label
      ((Tls.main build program args).link (Tls.mainCall rnd build))
      ((Tls.selectedCases options).flatMap Tls.Case.labels) :=
    completes_link (Tls.main_sweeps hargs hoptions) fun _ => Tls.case_completes hrnd hargs hoptions
  exact Tls.implementation_faultless.runs (Tls.main_onlySupported hargs hoptions)
    (wp_main (tls_mainCall rnd build) _) (hmain [] now) trivial hrun hpath

/-! ## A run in which nothing fails -/

namespace Tls

/-- A library beside its connection, with the next address to hand out. -/
def peerLibrary (lib : ℕ × Connection) :
    (call : Ssl.Call) → Ssl.Resp call × (ℕ × Connection)
  | .ctxConfig _ config =>
    ((1 : Int), lib.1, { lib.2 with cipher := setCipher lib.2.cipher config })
  | .sslNew _ => (some lib.1, lib.1 + 1, { lib.2 with tried := 0, queue := [] })
  | .getError _ _ => (errorWantRead, lib)
  | .cipherName _ => (lib.2.cipher, lib)
  | .write _ _ _ data =>
    ((data.length : Int), lib.1, { lib.2 with queue := lib.2.queue ++ data })
  | .read _ _ num =>
    (⟨(min num lib.2.queue.length : ℕ), lib.2.queue.take (min num lib.2.queue.length), by omega,
      by rw [List.length_take, Int.toNat_natCast]; omega⟩, lib.1,
      { lib.2 with queue := lib.2.queue.drop (min num lib.2.queue.length) })
  | .calloc => (some lib.1, lib.1 + 1, lib.2)
  | .malloc size => (some (.zeros size.toNat lib.1), lib.1 + 1, lib.2)
  | .ctxNew => (some lib.1, lib.1 + 1, lib.2)
  | .newBioPair => (some (lib.1, lib.1 + 1), lib.1 + 2, lib.2)
  | .doHandshake _ => ((1 : Int), lib)
  | .version _ => (tls13Version, lib)
  | .memFree _ => ((), lib)
  | .ctxFree _ => ((), lib)
  | .ctxSetVerify _ => ((), lib)
  | .sslFree _ => ((), lib)
  | .bioFree _ => ((), lib)
  | .setBio _ _ _ => ((), lib)
  | .setConnectState _ => ((), lib)
  | .setAcceptState _ => ((), lib)

theorem peerLibrary_step (lib : ℕ × Connection) (call : Ssl.Call) :
    peerEnv.step lib.2 call (peerLibrary lib call).1 (peerLibrary lib call).2.2 := by
  cases call with
  | calloc | malloc | ctxNew | newBioPair | sslNew => exact ⟨Option.some_ne_none _, rfl⟩
  | ctxConfig | version | cipherName => exact ⟨rfl, rfl⟩
  | doHandshake => exact .inl ⟨rfl, rfl⟩
  | getError => exact ⟨.inl rfl, rfl⟩
  | write ssl offset num data =>
    refine ⟨⟨le_refl _, ?_, fun _ _ _ => rfl⟩, rfl⟩
    simp only [peerLibrary, Int.toNat_natCast, List.take_length]
  | read ssl offset num =>
    refine ⟨⟨?_, fun hnum hqueue => ?_, rfl, rfl⟩, rfl⟩
    · simp [peerLibrary]
    · have hlength := List.length_pos_of_ne_nil hqueue
      simp only [peerLibrary]
      omega
  | _ => exact rfl

/-- A handshake and a transfer of three bytes, to a millisecond. -/
def threeByteArgs : List String :=
  ["--cipher", "TLS_AES_128_GCM_SHA256", "--size", "3", "--samples", "1", "--sample-ms", "1"]

def threeByteOptions : Options :=
  ⟨"all", "TLS_AES_128_GCM_SHA256", "jsonl", "cert.pem", "key.pem", 3, 1, 1000000, true⟩

theorem parseArgs_threeByteArgs :
    parseArgs (defaultOptions testBuild) threeByteArgs = .run threeByteOptions := by
  rfl

theorem threeByteOptions_runnable : Runnable threeByteOptions where
  benchmark := .inl rfl
  format := .inl rfl
  cipher := ⟨"TLS_AES_128_GCM_SHA256", by decide, .inr rfl⟩
  size size hsize := by
    obtain rfl : size = 3 := List.mem_singleton.1 hsize
    exact ⟨by decide, by decide, by simp [threeByteOptions, toNat_uint64Max]⟩

theorem labels_threeByteOptions : (selectedCases threeByteOptions).flatMap Case.labels
    = [(.handshake, "TLS_AES_128_GCM_SHA256", 0, 0), (.transfer, "TLS_AES_128_GCM_SHA256", 3, 0)]
    := by
  decide

end Tls

def threeByteProgram : Prog (Process Tls.Ssl Tls.Row) Int :=
  Tls.executable id testBuild "ofb-tls" Tls.threeByteArgs

def threeByteRun : Trace (Process Tls.Ssl Tls.Row) × Int ×
    ((ℕ × Tls.Connection) × (List (Tls.Benchmark × String × UInt64 × ℕ) × ℕ)) :=
  threeByteProgram.run (onTime Tls.peerCost Tls.Row.label Tls.peerLibrary)
    ((0, ⟨"", 0, []⟩), [], 0)

theorem threeByteRun_now : threeByteRun.2.2.2.2 = 8000041 := by
  decide +kernel

theorem tls_completes_threeBytes : threeByteRun.2.1 = 0 ∧
    (printedRows threeByteRun.1).map Tls.Row.label
      = [(.handshake, "TLS_AES_128_GCM_SHA256", 0, 0),
        (.transfer, "TLS_AES_128_GCM_SHA256", 3, 0)] := by
  have htime : ¬ 2 ^ 64 ≤ threeByteRun.2.2.2.2 := by
    rw [threeByteRun_now]
    decide
  refine Or.resolve_left ?_ htime
  unfold threeByteRun
  generalize hp : threeByteProgram = p
  have hrun := Prog.runs_run (onTime Tls.peerCost Tls.Row.label Tls.peerLibrary) p
    ((0, ⟨"", 0, []⟩), [], 0)
  have hpath := path_onTime Tls.peerCost Tls.Row.label Tls.peerLibrary_step p
    ((0, ⟨"", 0, []⟩), [], 0)
  generalize p.run _ _ = out at hrun hpath ⊢
  subst hp
  rw [← Tls.labels_threeByteOptions]
  obtain ⟨t, status, lib, log, now⟩ := out
  exact tls_completes id rounds_id testBuild "ofb-tls" Tls.threeByteArgs
    Tls.parseArgs_threeByteArgs Tls.threeByteOptions_runnable _ 0 hrun hpath

end OfbBench
