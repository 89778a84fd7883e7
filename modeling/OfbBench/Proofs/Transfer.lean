import OfbBench.OpensslTls

/-!
# Transfers lose nothing

The library is a queue of bytes from the client to the server (`queueEnv`). A chunk is written on an
empty queue and read until the queue is empty again: what is queued is the unread part of the chunk
(`wp_readChunk`), so each transfer ends with an empty queue and a received buffer that starts with
the message (`wp_transferOnce`). Every call on the backend keeps this.
-/

namespace OfbBench.Tls

/-- `SSL_write` of `data` on the queue `q`: it takes all of 1 to 16384 bytes when the queue is
empty, and otherwise any number of them. -/
def Accepts (q data : List UInt8) (result : Int) (q' : List UInt8) : Prop :=
  result ≤ data.length ∧ q' = q ++ data.take result.toNat
    ∧ (q = [] → 1 ≤ data.length → data.length ≤ recordSize → result = data.length)

/-- `SSL_read` of at most `num` bytes on the queue `q`: it takes some of them, unless there is
none. -/
def Delivers (q : List UInt8) (num : ℕ) (answer : ReadAnswer num) (q' : List UInt8) : Prop :=
  answer.result ≤ q.length ∧ (0 < num → q ≠ [] → 1 ≤ answer.result)
    ∧ answer.data = q.take answer.result.toNat ∧ q' = q.drop answer.result.toNat

/-- The library, as far as a connected pair that negotiated `cipher` is concerned. -/
def queueEnv (pair : TlsPair) (cipher : String) : Env Ssl (List UInt8) where
  pre q call :=
    match call with
    | .write ssl _ num data =>
      ssl = pair.client ∧ q = [] ∧ 1 ≤ num ∧ num ≤ recordSize ∧ data.length = num
    | _ => True
  step q call answer q' :=
    match call, answer with
    | .write ssl _ _ data, result => ssl = pair.client → Accepts q data result q'
    | .read ssl _ num, answer => ssl = pair.server → Delivers q num answer q'
    | .version ssl, version =>
      (ssl = pair.client ∨ ssl = pair.server → version = tls13Version) ∧ q' = q
    | .cipherName ssl, name =>
      (ssl = pair.client ∨ ssl = pair.server → name = cipher) ∧ q' = q
    | _, _ => True

section Queue

variable {pair : TlsPair} {cipher : String} {q : List UInt8}

theorem wp_sslRead {offset num : ℕ} {Q : ReadAnswer num → List UInt8 → Prop}
    (h : ∀ answer q', Delivers q num answer q' → Q answer q') :
    (queueEnv pair cipher).wp (sslRead pair.server offset num) Q q :=
  ⟨trivial, fun answer q' hs => h answer q' (hs rfl)⟩

theorem wp_sslWrite {offset num : ℕ} {data : List UInt8} {Q : Int → List UInt8 → Prop}
    (hq : q = []) (h1 : 1 ≤ num) (hnum : num ≤ recordSize) (hdata : data.length = num)
    (h : Q num data) : (queueEnv pair cipher).wp (sslWrite pair.client offset num data) Q q := by
  refine ⟨⟨rfl, hq, h1, hnum, hdata⟩, fun result q' hs => ?_⟩
  obtain ⟨-, hq', hall⟩ : Accepts q data result q' := hs rfl
  have hresult : result = num := by
    rw [← hdata]
    exact hall hq (by omega) (by omega)
  have hqueue : q' = data := by
    rw [hq', hq, hresult, Int.toNat_natCast, ← hdata, List.take_length, List.nil_append]
  change Q result q'
  rw [hresult, hqueue]
  exact h

theorem wp_sslVersion {ssl : Option Ptr} {Q : Int → List UInt8 → Prop}
    (hssl : ssl = pair.client ∨ ssl = pair.server) (h : Q tls13Version q) :
    (queueEnv pair cipher).wp (sslVersion ssl) Q q := by
  refine ⟨trivial, fun version q' hs => ?_⟩
  obtain ⟨hv, rfl⟩ := hs
  exact hv hssl ▸ h

theorem wp_sslGetCipherName {ssl : Option Ptr} {Q : String → List UInt8 → Prop}
    (hssl : ssl = pair.client ∨ ssl = pair.server) (h : Q cipher q) :
    (queueEnv pair cipher).wp (sslGetCipherName ssl) Q q := by
  refine ⟨trivial, fun name q' hs => ?_⟩
  obtain ⟨hname, rfl⟩ := hs
  exact hname hssl ▸ h

theorem wp_tlsPairMatches {Q : Bool → List UInt8 → Prop} (h : Q true q) :
    (queueEnv pair cipher).wp (tlsPairMatches pair cipher) Q q := by
  unfold tlsPairMatches
  simp only [Env.wp_bind]
  refine wp_sslVersion (.inl rfl) ?_
  rw [if_neg (not_not.2 rfl), Env.wp_bind]
  refine wp_sslVersion (.inr rfl) ?_
  rw [if_neg (not_not.2 rfl), Env.wp_bind]
  refine wp_sslGetCipherName (.inl rfl) ?_
  rw [if_neg (not_not.2 rfl), Env.wp_bind]
  refine wp_sslGetCipherName (.inr rfl) ?_
  rw [decide_eq_true rfl]
  exact h

/-- Whatever is allowed is answered. -/
theorem queueEnv_answers (c : Ssl.Call) :
    ∃ (answer : Ssl.Resp c) (q' : List UInt8), (queueEnv pair cipher).step q c answer q' := by
  cases c with
  | write ssl offset num data =>
    exact ⟨(data.length : Int), q ++ data.take (data.length : Int).toNat,
      fun _ => ⟨le_refl _, rfl, fun _ _ _ => rfl⟩⟩
  | read ssl offset num =>
    refine ⟨⟨(min num q.length : ℕ), q.take (min num q.length), by omega, ?_⟩,
      q.drop (min num q.length), fun _ => ⟨?_, fun hnum hq => ?_, rfl, rfl⟩⟩
    · rw [List.length_take, Int.toNat_natCast]
      omega
    · simp
    · have := List.length_pos_of_ne_nil hq
      simp only [Nat.cast_min, le_inf_iff]
      omega
  | version ssl => exact ⟨tls13Version, q, fun _ => rfl, rfl⟩
  | cipherName ssl => exact ⟨cipher, q, fun _ => rfl, rfl⟩
  | calloc => exact ⟨none, q, trivial⟩
  | malloc size => exact ⟨none, q, trivial⟩
  | ctxNew => exact ⟨none, q, trivial⟩
  | sslNew ctx => exact ⟨none, q, trivial⟩
  | newBioPair => exact ⟨none, q, trivial⟩
  | ctxConfig ctx config => exact ⟨(0 : Int), q, trivial⟩
  | doHandshake ssl => exact ⟨(0 : Int), q, trivial⟩
  | getError ssl result => exact ⟨(0 : Int), q, trivial⟩
  | _ => exact ⟨(), q, trivial⟩

/-- Reading a chunk whose unread part is what is queued. -/
theorem wp_readChunk {offset chunk received : ℕ} {bytes : List UInt8}
    (hq : received + q.length = chunk) (hlen : offset + chunk ≤ bytes.length) :
    (queueEnv pair cipher).wp (readChunk pair.server offset chunk received bytes)
      (fun out q' => out.1 = 0 ∧ q' = [] ∧ out.2.length = bytes.length
        ∧ out.2.take (offset + chunk) = bytes.take (offset + received) ++ q) q := by
  induction hm : q.length using Nat.strongRecOn generalizing received q bytes with
  | _ m ih =>
  rw [readChunk]
  split_ifs with h
  · rw [Env.wp_bind]
    refine wp_sslRead fun answer q' hs => ?_
    obtain ⟨hle, hpos, hdata, hq'⟩ := hs
    have hne : q ≠ [] := by
      rintro rfl
      simp at hq
      omega
    have h1 := hpos (by omega) hne
    have hdlen : answer.data.length = answer.result.toNat := answer.length_data
    rw [dif_neg (by omega)]
    have hqlen : q'.length = q.length - answer.result.toNat := by rw [hq', List.length_drop]
    have hslen : (splice bytes (offset + received) answer.data).length = bytes.length :=
      length_splice (by omega)
    refine Env.wp_mono _ (ih q'.length (by omega) (by omega) (by omega) rfl) ?_
    rintro ⟨rc, out⟩ q'' ⟨hrc, hq'', hout, htake⟩
    refine ⟨hrc, hq'', hout.trans hslen, ?_⟩
    rw [htake, ← Nat.add_assoc, ← hdlen, take_splice (by omega), List.append_assoc, hq', hdata,
      List.take_append_drop]
  · have hnil : q = [] := List.length_eq_zero_iff.1 (by omega)
    refine ⟨rfl, hnil, rfl, ?_⟩
    rw [hnil, List.append_nil]
    have : received = chunk := by
      rw [hnil, List.length_nil] at hq
      omega
    rw [this]

/-- The part of a message from `offset` on is its next chunk and what follows it. -/
theorem drop_eq_chunk {α : Type} (message : List α) (offset chunk : ℕ) :
    message.drop offset = (message.drop offset).take chunk ++ message.drop (offset + chunk) := by
  rw [← List.drop_drop, List.take_append_drop]

theorem wp_transferFrom {n offset : ℕ} {plaintext bytes : List UInt8} (hoffset : offset ≤ n)
    (hp : n ≤ plaintext.length) (hr : n ≤ bytes.length) :
    (queueEnv pair cipher).wp (transferFrom pair plaintext n offset bytes)
      (fun out q' => out.1 = 0 ∧ q' = [] ∧ out.2.length = bytes.length
        ∧ out.2.take n = bytes.take offset ++ (plaintext.take n).drop offset) [] := by
  induction hm : n - offset using Nat.strongRecOn generalizing offset bytes with
  | _ m ih =>
  rw [transferFrom]
  split_ifs with h
  · have hrecord : 0 < recordSize := by decide
    have hchunk : (plaintext.drop offset).take (min (n - offset) recordSize)
        = ((plaintext.take n).drop offset).take (min (n - offset) recordSize) := by
      rw [List.drop_take, List.take_take, min_eq_left (min_le_left _ _)]
    have hdata : ((plaintext.drop offset).take (min (n - offset) recordSize)).length
        = min (n - offset) recordSize := by
      rw [List.length_take, List.length_drop]
      omega
    rw [Env.wp_bind]
    refine wp_sslWrite rfl (by omega) (by omega) hdata ?_
    rw [if_neg (not_not.2 rfl), Env.wp_bind]
    refine Env.wp_mono _ (wp_readChunk (by rw [hdata, Nat.zero_add]) (by omega)) ?_
    rintro ⟨rc, out⟩ q' ⟨rfl, rfl, hlen, htake⟩
    simp only [ne_eq, not_true_eq_false, if_false] at hlen htake ⊢
    refine Env.wp_mono _ (ih _ (by omega) (by omega) (by omega) rfl) ?_
    rintro ⟨rc', out'⟩ q' ⟨hrc, hq', hlen', htake'⟩
    refine ⟨hrc, hq', hlen'.trans hlen, ?_⟩
    rw [htake', htake, Nat.add_zero, hchunk, List.append_assoc, ← drop_eq_chunk]
  · refine ⟨rfl, rfl, rfl, ?_⟩
    have : offset = n := by omega
    rw [this, List.drop_eq_nil_of_le (by rw [List.length_take]; omega), List.append_nil]

end Queue

/-- A backend for transfers, its buffers as long as its message; `create` makes no other
(`create_isTransfer`). -/
structure IsTransfer (state : Backend) : Prop where
  benchmark : state.benchmark = .transfer
  plaintext : state.messageSize.toNat ≤ state.plaintext.bytes.length
  received : state.messageSize.toNat ≤ state.received.bytes.length

/-- `state` after calls that changed its received bytes and its checksum only. -/
structure Intact (init state : Backend) : Prop where
  same : state = { init with
    received := ⟨init.received.ptr, state.received.bytes⟩, checksum := state.checksum }
  length : state.received.bytes.length = init.received.bytes.length

/-- The received buffer starts with the message. -/
def Delivered (state : Backend) : Prop :=
  state.received.bytes.take state.messageSize.toNat
    = state.plaintext.bytes.take state.messageSize.toNat

/-- How a successful call on `init`, or a part of one that ends with a transfer, leaves things. -/
structure Settled (init state : Backend) (q : List UInt8) : Prop where
  intact : Intact init state
  delivered : Delivered state
  queue : q = []

theorem Intact.refl (state : Backend) : Intact state state := ⟨rfl, rfl⟩

theorem Intact.trans {s₁ s₂ s₃ : Backend} (h₁ : Intact s₁ s₂) (h₂ : Intact s₂ s₃) :
    Intact s₁ s₃ := by
  refine ⟨?_, h₂.length.trans h₁.length⟩
  rw [h₂.same, h₁.same]

theorem Intact.withChecksum {init state : Backend} (h : Intact init state) (checksum : UInt8) :
    Intact init { state with checksum := checksum } := by
  refine ⟨?_, h.length⟩
  conv_lhs => rw [h.same]

section Intact

variable {init state : Backend} (h : Intact init state)

include h

theorem Intact.transferPair : state.transferPair = init.transferPair := by rw [h.same]

theorem Intact.cipher : state.cipher = init.cipher := by rw [h.same]

theorem Intact.plaintext : state.plaintext = init.plaintext := by rw [h.same]

theorem Intact.messageSize : state.messageSize = init.messageSize := by rw [h.same]

theorem Intact.isTransfer (ht : IsTransfer init) : IsTransfer state := by
  refine ⟨?_, ?_, ?_⟩
  · rw [h.same]
    exact ht.benchmark
  · rw [h.messageSize, h.plaintext]
    exact ht.plaintext
  · rw [h.messageSize, h.length]
    exact ht.received

end Intact

section Backend

variable {init state : Backend}

/-- The library as the backend `init` finds it. -/
def backendEnv (init : Backend) : Env Ssl (List UInt8) := queueEnv init.transferPair init.cipher

theorem Intact.env (h : Intact init state) : backendEnv init = backendEnv state := by
  unfold backendEnv
  rw [h.transferPair, h.cipher]

theorem wp_transferOnce (ht : IsTransfer state) :
    (backendEnv state).wp (transferOnce state)
      (fun out q => out.1 = 0 ∧ Settled state out.2 q) [] := by
  unfold transferOnce
  rw [Env.wp_bind]
  refine Env.wp_mono _ (wp_transferFrom (Nat.zero_le _) ht.plaintext ht.received) ?_
  rintro ⟨rc, bytes⟩ q ⟨hrc, hq, hlen, htake⟩
  refine ⟨hrc, ⟨rfl, hlen⟩, ?_, hq⟩
  rw [List.take_zero, List.nil_append, List.drop_zero] at htake
  exact htake

theorem wp_transferBatch (ht : IsTransfer state) (iterations : ℕ) :
    (backendEnv state).wp (transferBatch state iterations)
      (fun out q => out.1 = 0 ∧ Intact state out.2 ∧ q = []
        ∧ (0 < iterations ∨ Delivered state → Delivered out.2)) [] := by
  induction iterations generalizing state with
  | zero => exact ⟨rfl, .refl state, rfl, fun h => h.resolve_left (lt_irrefl 0)⟩
  | succ iterations ih =>
    rw [transferBatch, Env.wp_bind]
    refine Env.wp_mono _ (wp_transferOnce ht) ?_
    rintro ⟨rc, state₁⟩ q ⟨rfl, h⟩
    obtain ⟨hi, hd, rfl⟩ := h
    simp only [ne_eq, not_true_eq_false, if_false]
    rw [hi.env]
    refine Env.wp_mono _ (ih (hi.isTransfer ht)) ?_
    rintro ⟨rc, state₂⟩ q ⟨hrc, hi₂, hq, hd₂⟩
    exact ⟨hrc, hi.trans hi₂, hq, fun _ => hd₂ (.inr hd)⟩

theorem memEq_of_delivered (h : Delivered state) :
    memEq state.plaintext.bytes state.received.bytes state.messageSize.toNat = true :=
  decide_eq_true (Eq.symm h)

theorem wp_verify (ht : IsTransfer state) :
    (backendEnv state).wp (ofbTlsBackendVerify state)
      (fun out q => out.1 = 0 ∧ Settled state out.2 q) [] := by
  unfold ofbTlsBackendVerify
  rw [ht.benchmark]
  simp only [Env.wp_bind]
  refine wp_tlsPairMatches ?_
  rw [if_neg (by simp), Env.wp_bind]
  refine Env.wp_mono _ (wp_transferOnce ht) ?_
  rintro ⟨rc, state₁⟩ q ⟨rfl, h⟩
  simp only [ne_eq, not_true_eq_false, if_false]
  rw [if_pos (memEq_of_delivered h.delivered)]
  exact ⟨rfl, h⟩

theorem wp_runBatch (ht : IsTransfer state) (hd : Delivered state) (iterations : UInt64) :
    (backendEnv state).wp (ofbTlsBackendRunBatch state iterations)
      (fun out q => out.1 = 0 ∧ Settled state out.2 q) [] := by
  unfold ofbTlsBackendRunBatch
  rw [ht.benchmark]
  simp only [Env.wp_bind]
  refine Env.wp_mono _ (wp_transferBatch ht iterations.toNat) ?_
  rintro ⟨rc, state₁⟩ q ⟨rfl, hi, hq, hd₁⟩
  have hd₁ := hd₁ (.inr hd)
  simp only [ne_eq, not_true_eq_false, if_false]
  rw [if_pos (memEq_of_delivered hd₁)]
  exact ⟨rfl, hi.withChecksum _, hd₁, hq⟩

theorem wp_use (ht : IsTransfer state) (hd : Delivered state) (use : Use) :
    (backendEnv state).wp (use.run state) (fun out q => out.1 = 0 ∧ Settled state out.2 q) [] := by
  cases use with
  | verify => exact wp_verify ht
  | runBatch iterations => exact wp_runBatch ht hd iterations

theorem wp_useAll (ht : IsTransfer state) (hd : Delivered state) (uses : List Use) :
    (backendEnv state).wp (useAll state uses)
      (fun out q => out.1 = List.replicate uses.length 0 ∧ Settled state out.2 q) [] := by
  induction uses generalizing state with
  | nil => exact ⟨rfl, .refl state, hd, rfl⟩
  | cons use uses ih =>
    rw [useAll, Env.wp_bind]
    refine Env.wp_mono _ (wp_use ht hd use) ?_
    rintro ⟨rc, state₁⟩ q ⟨hrc, hi, hd₁, rfl⟩
    rw [Env.wp_bind, hi.env]
    refine Env.wp_mono _ (ih (hi.isTransfer ht) hd₁) ?_
    rintro ⟨rcs, state₂⟩ q ⟨hrcs, hi₂, hd₂, hq⟩
    refine ⟨?_, hi.trans hi₂, hd₂, hq⟩
    rw [List.length_cons, List.replicate_succ]
    exact congrArg₂ _ hrc hrcs

/-- The first call need not find the message in the buffer if it is a `verify`. -/
theorem wp_useAll_verify (ht : IsTransfer state) (uses : List Use) :
    (backendEnv state).wp (useAll state (.verify :: uses))
      (fun out q => out.1 = List.replicate (uses.length + 1) 0 ∧ Settled state out.2 q) [] := by
  rw [useAll, Env.wp_bind]
  refine Env.wp_mono _ (wp_verify ht) ?_
  rintro ⟨rc, state₁⟩ q ⟨hrc, hi, hd₁, rfl⟩
  rw [Env.wp_bind, hi.env]
  refine Env.wp_mono _ (wp_useAll (hi.isTransfer ht) hd₁ uses) ?_
  rintro ⟨rcs, state₂⟩ q ⟨hrcs, hi₂, hd₂, hq⟩
  refine ⟨?_, hi.trans hi₂, hd₂, hq⟩
  rw [List.replicate_succ]
  exact congrArg₂ _ hrc hrcs

end Backend

/-! ## After every iteration -/

/-- The number of transfers a call makes on a backend for transfers. -/
def Use.iterations : Use → ℕ
  | .verify => 1
  | .runBatch iterations => iterations.toNat

/-- A call up to the end of its transfer `j`. -/
def Use.upTo (state : Backend) (j : ℕ) : Use → Prog Ssl (Int × Backend)
  | .verify => do
    let _ ← tlsPairMatches state.transferPair state.cipher
    transferOnce state
  | .runBatch _ => transferBatch state j

/-- The calls of `before`, and the call `use` up to the end of its transfer `j`. -/
def usesUpTo (state : Backend) (before : List Use) (use : Use) (j : ℕ) :
    Prog Ssl (Int × Backend) := do
  let (_, state) ← useAll state before
  use.upTo state j

section Iterations

variable {state : Backend} {t : Trace Ssl}

/-- A batch is its first `j` transfers and, when they succeed, the others. -/
theorem transferBatch_add (state : Backend) (j m : ℕ) :
    transferBatch state (j + m) = transferBatch state j >>= fun out =>
      if out.1 ≠ 0 then pure (-1, out.2) else transferBatch out.2 m := by
  induction j generalizing state with
  | zero =>
    rw [Nat.zero_add, transferBatch, pure_bind, if_neg (not_not.2 rfl)]
  | succ j ih =>
    rw [Nat.succ_add, transferBatch, transferBatch, bind_assoc]
    congr 1
    funext ⟨rc, state₁⟩
    by_cases hrc : rc ≠ 0
    · simp only [if_pos hrc, pure_bind]
      rfl
    · simp only [if_neg hrc, ih]

/-- The run of a call on a transfer backend goes through the end of each of its transfers, when
the call gets that far. -/
theorem upTo_prefix (ht : IsTransfer state) {use : Use} {j : ℕ} (hj : j ≤ use.iterations)
    {out : Int × Backend} (h : (use.run state).Runs t out) {q : List UInt8}
    (hpath : (backendEnv state).Path [] t q) :
    ∃ u v out', t = u ++ v ∧ (use.upTo state j).Runs u out' := by
  cases use with
  | verify =>
    unfold Use.run ofbTlsBackendVerify at h
    rw [ht.benchmark] at h
    simp only [Prog.runs_bind] at h
    obtain ⟨t₁, t₂, matched, rfl, h₁, h₂⟩ := h
    obtain ⟨q₁, hp₁, hp₂⟩ := (Env.path_append _).1 hpath
    have hwp : (backendEnv state).wp (tlsPairMatches state.transferPair state.cipher)
        (fun m _ => m = true) [] := wp_tlsPairMatches rfl
    obtain rfl := Env.wp_sound _ hwp h₁ hp₁
    rw [if_neg (by simp), Prog.runs_bind] at h₂
    obtain ⟨u, v, out', rfl, hu, -⟩ := h₂
    refine ⟨t₁ ++ u, v, out', (List.append_assoc _ _ _).symm, ?_⟩
    unfold Use.upTo
    rw [Prog.runs_bind]
    exact ⟨t₁, u, true, rfl, h₁, hu⟩
  | runBatch iterations =>
    unfold Use.run ofbTlsBackendRunBatch at h
    rw [ht.benchmark] at h
    simp only [Prog.runs_bind] at h
    obtain ⟨t₁, t₂, out', rfl, h₁, -⟩ := h
    have hsplit : iterations.toNat = j + (iterations.toNat - j) := (Nat.add_sub_of_le hj).symm
    rw [hsplit, transferBatch_add, Prog.runs_bind] at h₁
    obtain ⟨u, v, out'', rfl, hu, -⟩ := h₁
    exact ⟨u, v ++ t₂, out'', List.append_assoc _ _ _, hu⟩

theorem wp_upTo (ht : IsTransfer state) (use : Use) {j : ℕ} (hj : 0 < j) :
    (backendEnv state).wp (use.upTo state j) (fun out q => Settled state out.2 q) [] := by
  cases use with
  | verify =>
    unfold Use.upTo
    rw [Env.wp_bind]
    exact wp_tlsPairMatches (Env.wp_mono _ (wp_transferOnce ht) fun _ _ h => h.2)
  | runBatch iterations =>
    refine Env.wp_mono _ (wp_transferBatch ht j) ?_
    rintro out q ⟨-, hi, hq, hd⟩
    exact ⟨hi, hd (.inl hj), hq⟩

theorem useAll_append (state : Backend) (before after : List Use) :
    useAll state (before ++ after) = useAll state before >>= fun out =>
      useAll out.2 after >>= fun out' => pure (out.1 ++ out'.1, out'.2) := by
  induction before generalizing state with
  | nil => exact (bind_pure _).symm
  | cons use before ih => simp only [List.cons_append, useAll, ih, bind_assoc, pure_bind]

/-- The run of the calls goes through the end of each transfer of each call. -/
theorem useAll_upTo {init s₁ : Backend} {t₂ : Trace Ssl} {use : Use}
    {after : List Use} {out : List Int × Backend} {q : List UInt8} {j : ℕ} (ht : IsTransfer init)
    (hi : Intact init s₁) (hrun : (useAll s₁ (use :: after)).Runs t₂ out)
    (hpath : (backendEnv init).Path [] t₂ q) (hj : 1 ≤ j) (hle : j ≤ use.iterations) :
    ∃ u v rc s, t₂ = u ++ v ∧ (use.upTo s₁ j).Runs u (rc, s)
      ∧ ∃ q', (backendEnv init).Path [] u q' ∧ Settled init s q' := by
  rw [useAll, Prog.runs_bind] at hrun
  obtain ⟨t₃, t₄, ⟨rc, s₂⟩, rfl, h₃, -⟩ := hrun
  obtain ⟨q₃, hp₃, -⟩ := (Env.path_append _).1 hpath
  rw [hi.env] at hp₃
  obtain ⟨u, v, ⟨rc', s⟩, rfl, hu⟩ := upTo_prefix (hi.isTransfer ht) hle h₃ hp₃
  obtain ⟨q', hp', -⟩ := (Env.path_append _).1 hp₃
  have hs := Env.wp_sound _ (wp_upTo (hi.isTransfer ht) use hj) hu hp'
  refine ⟨u, v ++ t₄, rc', s, List.append_assoc _ _ _, hu, q', ?_, ?_⟩
  · rw [hi.env]
    exact hp'
  · exact ⟨hi.trans hs.intact, hs.delivered, hs.queue⟩

end Iterations

theorem allocate_ensures (self : Ptr) (params : Params) :
    (allocate self params).Ensures fun state =>
      state.messageSize = params.messageSize ∧ state.benchmark = params.benchmark
      ∧ (state.plaintext.ptr ≠ none → params.messageSize.toNat ≤ state.plaintext.bytes.length)
      ∧ (state.received.ptr ≠ none → params.messageSize.toNat ≤ state.received.bytes.length) := by
  refine Prog.ensures_bind fun clientCtx => Prog.ensures_bind fun serverCtx =>
    Prog.ensures_bind fun plaintext => Prog.ensures_bind fun received => Prog.ensures_ret ?_
  refine ⟨rfl, rfl, fun h => ?_, fun h => ?_⟩
  · exact buffer_room h
  · exact buffer_room h

theorem unusable_ensures (state : Backend) (params : Params) :
    (unusable state params).Ensures fun refused => refused = false →
      state.plaintext.ptr ≠ none ∧ state.received.ptr ≠ none := by
  unfold unusable
  split_ifs with hnull
  · exact Prog.ensures_ret fun h => by simp at h
  · simp only [not_or] at hnull
    exact fun _ _ _ _ => ⟨hnull.2.2.1, hnull.2.2.2⟩

/-- `create` makes transfer backends whose buffers hold the message. -/
theorem create_isTransfer {params : Params} {cell : Cell} {t : Trace Ssl} {state : Backend}
    (hb : params.benchmark = .transfer)
    (h : (ofbTlsBackendCreate (some params) (some cell)).Runs t (0, some (some state))) :
    IsTransfer state := by
  suffices hcreate : (ofbTlsBackendCreate (some params) (some cell)).Ensures
      fun out => ∀ state, out = (0, some (some state)) → IsTransfer state from
    hcreate t _ h state rfl
  have hfail : (pure (-1, some cell) : Prog Ssl (Int × Option Cell)).Ensures
      fun out => ∀ state, out = (0, some (some state)) → IsTransfer state :=
    Prog.ensures_ret fun state h => by simp at h
  unfold ofbTlsBackendCreate
  simp only
  split_ifs with hmax
  · exact hfail
  refine Prog.ensures_bind fun self => ?_
  rcases self with _ | self
  · exact hfail
  unfold setUp
  refine (allocate_ensures self params).bind fun state₁ hstate => ?_
  obtain ⟨hsize, hbench, hplain, hrecv⟩ := hstate
  refine (unusable_ensures state₁ params).bind fun refused hrefused => ?_
  split_ifs with hr
  · exact Prog.ensures_bind fun _ => hfail
  obtain ⟨hp, hrv⟩ := hrefused (by simpa using hr)
  refine Prog.ensures_bind fun _ => Prog.ensures_bind fun ⟨rc, pair⟩ => ?_
  simp only
  split_ifs with hrc
  · exact Prog.ensures_bind fun _ => hfail
  refine Prog.ensures_ret fun state₂ h => ?_
  simp only [Prod.mk.injEq, Option.some.injEq, true_and] at h
  subst h
  refine ⟨hbench.trans hb, ?_, ?_⟩
  · simp only [Backend.fillPlaintext, length_fill, hsize]
    exact hplain hp
  · simp only [Backend.fillPlaintext, hsize]
    exact hrecv hrv

/-- Calls on a backend for transfers, the first of them a `verify`, on an empty queue: all return 0,
every write is of 1 to 16384 bytes on an empty queue, the queue ends empty with the message in the
buffer and the backend otherwise unchanged, and so it does after each transfer of each call. -/
theorem transfer_integrity (init : Backend) (ht : IsTransfer init) (uses : List Use) :
    (∃ t out q, (useAll init (.verify :: uses)).Runs t out ∧ (backendEnv init).Path [] t q)
    ∧ ∀ t rcs state q, (useAll init (.verify :: uses)).Runs t (rcs, state) →
      (backendEnv init).Path [] t q →
      rcs = List.replicate (uses.length + 1) 0 ∧ (backendEnv init).Safe [] t ∧ Settled init state q
      ∧ ∀ before use after, .verify :: uses = before ++ use :: after →
        ∀ j, 1 ≤ j → j ≤ use.iterations → ∃ u v rc s, t = u ++ v
          ∧ (usesUpTo init before use j).Runs u (rc, s)
          ∧ ∃ q', (backendEnv init).Path [] u q' ∧ Settled init s q' := by
  have hwp := wp_useAll_verify ht uses
  refine ⟨Env.wp_exists_run _ hwp fun q c _ => queueEnv_answers c, ?_⟩
  intro t rcs state q hrun hpath
  obtain ⟨hrcs, hsettled⟩ := Env.wp_sound _ hwp hrun hpath
  refine ⟨hrcs, Env.wp_safe _ hwp hrun, hsettled, ?_⟩
  intro before use after hsplit j hj hle
  rw [hsplit, useAll_append, Prog.runs_bind] at hrun
  obtain ⟨t₁, t₂, ⟨rcs₁, s₁⟩, rfl, h₁, h₂⟩ := hrun
  rw [Prog.runs_bind] at h₂
  obtain ⟨t₂, t₃, out, rfl, h₂, -⟩ := h₂
  obtain ⟨q₁, hp₁, hp₂⟩ := (Env.path_append _).1 hpath
  obtain ⟨q₂, hp₂, -⟩ := (Env.path_append _).1 hp₂
  have hs₁ : Intact init s₁ ∧ q₁ = [] := by
    rcases before with _ | ⟨first, before⟩
    · obtain ⟨rfl, hs⟩ := h₁
      cases hs
      exact ⟨.refl init, hp₁⟩
    · obtain ⟨rfl, -⟩ := List.cons.inj hsplit
      have := (Env.wp_sound _ (wp_useAll_verify ht before) h₁ hp₁).2
      exact ⟨this.intact, this.queue⟩
  obtain ⟨hi, rfl⟩ := hs₁
  obtain ⟨u, v, rc, s, rfl, hu, q', hp', hs⟩ := useAll_upTo ht hi h₂ hp₂ hj hle
  refine ⟨t₁ ++ u, v ++ t₃, rc, s, by simp, ?_, q', ?_, hs⟩
  · unfold usesUpTo
    rw [Prog.runs_bind]
    exact ⟨t₁, u, (rcs₁, s₁), rfl, h₁, hu⟩
  · rw [Env.path_append]
    exact ⟨[], hp₁, hp'⟩

/-- A backend for transfers of three bytes, as `create` leaves it. -/
def threeBytes : Backend where
  self := 0
  clientCtx := some 1
  serverCtx := some 2
  transferPair := ⟨some 3, some 4⟩
  benchmark := .transfer
  cipher := "TLS_AES_128_GCM_SHA256"
  plaintext := ⟨some 5, [11, 40, 69]⟩
  received := ⟨some 6, [0, 0, 0]⟩
  messageSize := 3
  checksum := 0

theorem transfer_integrity_threeBytes :
    ∃ t rcs state q, (useAll threeBytes [.verify, .runBatch 5]).Runs t (rcs, state)
      ∧ (backendEnv threeBytes).Path [] t q ∧ rcs = [0, 0]
      ∧ state.received.bytes.take 3 = [11, 40, 69] := by
  have h := transfer_integrity threeBytes ⟨rfl, by decide, by decide⟩ [.runBatch 5]
  obtain ⟨⟨t, ⟨rcs, state⟩, q, hrun, hpath⟩, hall⟩ := h
  obtain ⟨hrcs, -, hs, -⟩ := hall t rcs state q hrun hpath
  refine ⟨t, rcs, state, q, hrun, hpath, hrcs, ?_⟩
  have hd := hs.delivered
  unfold Delivered at hd
  rw [hs.intact.messageSize, hs.intact.plaintext] at hd
  exact hd

end OfbBench.Tls
