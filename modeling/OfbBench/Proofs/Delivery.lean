import OfbBench.Proofs.Transfer

/-!
# A transfer that succeeds was delivered

Whatever the library answers, the reads of a transfer fill adjacent regions of the received buffer,
from its start on (`Fresh`). When the transfer returns 0 they cover the message, so what is compared
with the plaintext is what was read in this transfer, and nothing that was left in the buffer.

The reads are recorded by an environment of their own (`recorder`), which answers every call as it
likes and asks that each region lies in the message.
-/

namespace OfbBench

/-! ## Regions of a buffer -/

/-- A region of a buffer: where it starts and what it was filled with. -/
structure Region (α : Type) where
  offset : ℕ
  data : List α

variable {α : Type}

def Region.stop (region : Region α) : ℕ := region.offset + region.data.length

/-- The regions are adjacent, none is empty, and they lead from `a` to `b`. -/
def Tiles : ℕ → List (Region α) → ℕ → Prop
  | a, [], b => a = b
  | a, region :: regions, b =>
    region.offset = a ∧ 0 < region.data.length ∧ Tiles region.stop regions b

/-- What the regions were filled with. -/
def contents (regions : List (Region α)) : List α := regions.flatMap Region.data

section Tiles

variable {a b c : ℕ} {regions rest : List (Region α)}

theorem Tiles.append (h₁ : Tiles a regions b) (h₂ : Tiles b rest c) :
    Tiles a (regions ++ rest) c := by
  induction regions generalizing a with
  | nil =>
    obtain rfl : a = b := h₁
    exact h₂
  | cons region regions ih =>
    obtain ⟨ha, hpos, h₁⟩ := h₁
    exact ⟨ha, hpos, ih h₁⟩

theorem Tiles.le (h : Tiles a regions b) : a ≤ b := by
  induction regions generalizing a with
  | nil => exact le_of_eq h
  | cons region regions ih =>
    obtain ⟨rfl, -, h⟩ := h
    exact (Nat.le_add_right _ _).trans (ih h)

/-- The regions start one after the other. -/
theorem Tiles.offset_ge (h : Tiles a regions b) {region : Region α} (hr : region ∈ regions) :
    a ≤ region.offset := by
  induction regions generalizing a with
  | nil => simp at hr
  | cons first regions ih =>
    obtain ⟨rfl, -, h⟩ := h
    rcases List.mem_cons.1 hr with rfl | hr
    · exact le_refl _
    · exact (Nat.le_add_right _ _).trans (ih h hr)

/-- They are in order and do not overlap. -/
theorem Tiles.pairwise (h : Tiles a regions b) :
    regions.Pairwise fun r s => r.stop ≤ s.offset := by
  induction regions generalizing a with
  | nil => exact .nil
  | cons region regions ih =>
    obtain ⟨-, -, h⟩ := h
    exact .cons (fun s hs => h.offset_ge hs) (ih h)

/-- They cover exactly what lies between `a` and `b`. -/
theorem Tiles.cover (h : Tiles a regions b) (i : ℕ) :
    (a ≤ i ∧ i < b) ↔ ∃ r ∈ regions, r.offset ≤ i ∧ i < r.stop := by
  induction regions generalizing a with
  | nil =>
    obtain rfl : a = b := h
    simp only [List.not_mem_nil, false_and, exists_false, iff_false]
    omega
  | cons region regions ih =>
    obtain ⟨rfl, hpos, h⟩ := h
    have hle := h.le
    have hstop : region.stop = region.offset + region.data.length := rfl
    rw [List.exists_mem_cons_iff, ← ih h]
    omega

end Tiles

/-- Up to `k`, the buffer holds what the regions were filled with. -/
structure Fresh (bytes : List UInt8) (regions : List (Region UInt8)) (k : ℕ) : Prop where
  tiles : Tiles 0 regions k
  bytes : bytes.take k = contents regions

theorem Fresh.nil (bytes : List UInt8) : Fresh bytes [] 0 := ⟨rfl, List.take_zero⟩

/-- A write that goes on where the regions end. -/
theorem Fresh.splice {bytes data : List UInt8} {regions : List (Region UInt8)} {k : ℕ}
    (h : Fresh bytes regions k) (hdata : 0 < data.length) (hk : k ≤ bytes.length) :
    Fresh (splice bytes k data) (regions ++ [⟨k, data⟩]) (k + data.length) := by
  refine ⟨h.tiles.append ⟨rfl, hdata, rfl⟩, ?_⟩
  rw [take_splice hk, h.bytes]
  unfold contents
  rw [List.flatMap_append, List.flatMap_singleton]

namespace Tls

/-! ## The reads of a transfer -/

/-- The region a call fills. -/
def filled : (call : Ssl.Call) → Ssl.Resp call → List (Region UInt8)
  | .read _ offset _, answer => [⟨offset, answer.data⟩]
  | _, _ => []

/-- The regions the reads of `t` fill. -/
def fills (t : Trace Ssl) : List (Region UInt8) := t.flatMap fun e => filled e.1 e.2

/-- A write or a read is of a region in the first `n` bytes, and not of an empty one. -/
def Within (n : ℕ) : Ssl.Call → Prop
  | .write _ offset num _ => 0 < num ∧ offset + num ≤ n
  | .read _ offset num => 0 < num ∧ offset + num ≤ n
  | _ => True

/-- A library that answers as it likes, with the regions filled so far. -/
def recorder (n : ℕ) : Env Ssl (List (Region UInt8)) where
  pre _ call := Within n call
  step regions call answer regions' := regions' = regions ++ filled call answer

section Recorder

variable {n : ℕ} {regions regions' : List (Region UInt8)} {t : Trace Ssl}

theorem path_recorder : (recorder n).Path regions t regions' ↔ regions' = regions ++ fills t := by
  induction t generalizing regions with
  | nil => exact ⟨fun h => h.trans (List.append_nil _).symm, fun h => h.trans (List.append_nil _)⟩
  | cons e t ih =>
    unfold fills at ih ⊢
    rw [Env.path_cons, List.flatMap_cons]
    constructor
    · rintro ⟨_, rfl, h⟩
      rw [ih.1 h, List.append_assoc]
    · intro h
      exact ⟨_, rfl, ih.2 (by rw [h, List.append_assoc])⟩

theorem within_of_safe (h : (recorder n).Safe regions t) {e : Event Ssl} (he : e ∈ t) :
    Within n e.1 := by
  obtain ⟨t₁, t₂, rfl⟩ := List.append_of_mem he
  exact h t₁ e t₂ _ rfl (path_recorder.2 rfl)

theorem wp_sslRead_recorder {ssl : Option Ptr} {offset num : ℕ}
    {Q : ReadAnswer num → List (Region UInt8) → Prop} (hnum : 0 < num) (hle : offset + num ≤ n)
    (h : ∀ answer, Q answer (regions ++ [⟨offset, answer.data⟩])) :
    (recorder n).wp (sslRead ssl offset num) Q regions := by
  refine ⟨⟨hnum, hle⟩, ?_⟩
  rintro answer _ rfl
  exact h answer

theorem wp_sslWrite_recorder {ssl : Option Ptr} {offset num : ℕ} {data : List UInt8}
    {Q : Int → List (Region UInt8) → Prop} (hnum : 0 < num) (hle : offset + num ≤ n)
    (h : ∀ result, Q result regions) :
    (recorder n).wp (sslWrite ssl offset num data) Q regions := by
  refine ⟨⟨hnum, hle⟩, fun result regions' hs => ?_⟩
  obtain rfl : regions' = regions := hs.trans (List.append_nil _)
  exact h result

variable {offset chunk received : ℕ} {bytes : List UInt8} {server : Option Ptr} {pair : TlsPair}

/-- Reading a chunk extends the fresh part of the buffer by what is read. -/
theorem wp_readChunk_fresh (hr : received ≤ chunk) (hc : offset + chunk ≤ n)
    (hlen : n ≤ bytes.length) (hfresh : Fresh bytes regions (offset + received)) :
    (recorder n).wp (readChunk server offset chunk received bytes)
      (fun out regions' => out.2.length = bytes.length
        ∧ (out.1 = 0 → Fresh out.2 regions' (offset + chunk))) regions := by
  induction hm : chunk - received using Nat.strongRecOn generalizing received bytes regions with
  | _ m ih =>
  rw [readChunk]
  split_ifs with h
  · rw [Env.wp_bind]
    refine wp_sslRead_recorder (by omega) (by omega) fun answer => ?_
    have hdata : answer.data.length = answer.result.toNat := answer.length_data
    have hle := answer.result_le
    have hslen : (splice bytes (offset + received) answer.data).length = bytes.length :=
      length_splice (by omega)
    split_ifs with hres
    · exact ⟨hslen, fun h0 => by simp at h0⟩
    · have hnext := hfresh.splice (show 0 < answer.data.length by omega) (by omega)
      rw [hdata, Nat.add_assoc] at hnext
      refine Env.wp_mono _ (ih (chunk - (received + answer.result.toNat)) (by omega) (by omega)
        (by omega) hnext rfl) ?_
      rintro out regions' ⟨hout, hf⟩
      exact ⟨hout.trans hslen, hf⟩
  · obtain rfl : received = chunk := by omega
    exact ⟨rfl, fun _ => hfresh⟩

theorem wp_transferFrom_fresh {plaintext : List UInt8} (ho : offset ≤ n) (hlen : n ≤ bytes.length)
    (hfresh : Fresh bytes regions offset) :
    (recorder n).wp (transferFrom pair plaintext n offset bytes)
      (fun out regions' => out.2.length = bytes.length
        ∧ (out.1 = 0 → Fresh out.2 regions' n)) regions := by
  induction hm : n - offset using Nat.strongRecOn generalizing offset bytes regions with
  | _ m ih =>
  rw [transferFrom]
  split_ifs with h
  · have hrecord : 0 < recordSize := by decide
    rw [Env.wp_bind]
    refine wp_sslWrite_recorder (by omega) (by omega) fun result => ?_
    split_ifs with hres
    · exact ⟨rfl, fun h0 => by simp at h0⟩
    · rw [Env.wp_bind]
      refine Env.wp_mono _ (wp_readChunk_fresh (Nat.zero_le _) (by omega) hlen hfresh) ?_
      rintro ⟨rc, out⟩ regions' ⟨hout, hf⟩
      simp only [] at hout hf ⊢
      split_ifs with hrc
      · exact ⟨hout, fun h0 => by simp at h0⟩
      · rw [not_not] at hrc
        refine Env.wp_mono _ (ih _ (by omega) (by omega) (by omega) (hf hrc) rfl) ?_
        rintro out' regions'' ⟨hout', hf'⟩
        exact ⟨hout'.trans hout, hf'⟩
  · obtain rfl : offset = n := by omega
    exact ⟨rfl, fun _ => hfresh⟩

end Recorder

/-! ## The calls of a transfer -/

section Calls

variable {t : Trace Ssl} {out : Int × List UInt8}

/-- Each read but the last makes progress. -/
theorem length_readChunk {server : Option Ptr} {offset chunk received : ℕ} {bytes : List UInt8}
    (hr : received ≤ chunk) (h : (readChunk server offset chunk received bytes).Runs t out) :
    t.length ≤ chunk - received := by
  induction hm : chunk - received using Nat.strongRecOn generalizing received bytes t with
  | _ m ih =>
  rw [readChunk] at h
  split_ifs at h with hlt
  · obtain ⟨answer, t', rfl, hrest⟩ := Prog.runs_ask_bind.1 h
    have hle := answer.result_le
    rw [List.length_cons]
    split_ifs at hrest with hres
    · obtain ⟨rfl, -⟩ := hrest
      rw [List.length_nil]
      omega
    · have := ih (chunk - (received + answer.result.toNat)) (by omega) (by omega) hrest rfl
      omega
  · obtain ⟨rfl, -⟩ := h
    exact Nat.zero_le _

/-- A chunk is written in one call and read in at most as many as it has bytes. -/
theorem length_transferFrom {pair : TlsPair} {plaintext bytes : List UInt8} {n offset : ℕ}
    (h : (transferFrom pair plaintext n offset bytes).Runs t out) :
    t.length ≤ 2 * (n - offset) := by
  induction hm : n - offset using Nat.strongRecOn generalizing offset bytes t with
  | _ m ih =>
  rw [transferFrom] at h
  split_ifs at h with hlt
  · have hrecord : 0 < recordSize := by decide
    obtain ⟨result, t', rfl, hrest⟩ := Prog.runs_ask_bind.1 h
    rw [List.length_cons]
    split_ifs at hrest with hres
    · obtain ⟨rfl, -⟩ := hrest
      rw [List.length_nil]
      omega
    · obtain ⟨t₁, t₂, ⟨rc, bytes'⟩, rfl, h₁, h₂⟩ := Prog.runs_bind.1 hrest
      have hreads := length_readChunk (Nat.zero_le _) h₁
      rw [List.length_append]
      simp only [] at h₂
      split_ifs at h₂ with hrc
      · obtain ⟨rfl, -⟩ := h₂
        rw [List.length_nil]
        omega
      · have := ih (n - (offset + min (n - offset) recordSize)) (by omega) h₂ rfl
        omega
  · obtain ⟨rfl, -⟩ := h
    exact Nat.zero_le _

/-- A transfer makes at most two calls for each byte of the message. -/
theorem transferOnce_endsWithin (state : Backend) :
    (transferOnce state).EndsWithin (2 * state.messageSize.toNat) := by
  refine Prog.endsWithin fun t out h => ?_
  obtain ⟨t₁, t₂, ⟨rc, bytes⟩, rfl, h₁, rfl, -⟩ := Prog.runs_bind.1 h
  rw [List.append_nil]
  exact length_transferFrom h₁

end Calls

/-! ## The calls on a backend -/

section Backend

variable {state state' : Backend} {t : Trace Ssl} {rc : Int}

/-- The bytes the reads of `t` delivered, in order. -/
def delivered (t : Trace Ssl) : List UInt8 := contents (fills t)

/-- A transfer reads and writes in the message only, and when it returns 0 the first bytes of the
received buffer are what it read. -/
theorem transferOnce_fresh (ht : IsTransfer state) (h : (transferOnce state).Runs t (rc, state')) :
    (∀ e ∈ t, Within state.messageSize.toNat e.1) ∧ Intact state state'
      ∧ (rc = 0 → Fresh state'.received.bytes (fills t) state.messageSize.toNat) := by
  have hwp : (recorder state.messageSize.toNat).wp (transferOnce state) (fun out regions =>
      Intact state out.2
        ∧ (out.1 = 0 → Fresh out.2.received.bytes regions state.messageSize.toNat)) [] := by
    unfold transferOnce
    rw [Env.wp_bind]
    refine Env.wp_mono _ (wp_transferFrom_fresh (Nat.zero_le _) ht.received (.nil _)) ?_
    rintro ⟨rc, bytes⟩ regions ⟨hlen, hfresh⟩
    exact ⟨⟨rfl, hlen⟩, hfresh⟩
  obtain ⟨hi, hfresh⟩ := Env.wp_sound _ hwp h (path_recorder.2 (List.nil_append _).symm)
  exact ⟨fun e he => within_of_safe (Env.wp_safe _ hwp h) he, hi, hfresh⟩

theorem transferBatch_intact (ht : IsTransfer state) (iterations : ℕ) :
    (transferBatch state iterations).Ensures fun out => Intact state out.2 := by
  induction iterations generalizing state with
  | zero => exact Prog.ensures_ret (.refl state)
  | succ iterations ih =>
    unfold transferBatch
    have honce : (transferOnce state).Ensures fun out => Intact state out.2 :=
      fun t out h => (transferOnce_fresh ht h).2.1
    refine honce.bind fun out hi => ?_
    obtain ⟨rc, state₁⟩ := out
    simp only [] at hi ⊢
    split_ifs with hrc
    · exact Prog.ensures_ret hi
    · intro t out' h
      exact hi.trans (ih (hi.isTransfer ht) t out' h)

theorem fills_append (t₁ t₂ : Trace Ssl) : fills (t₁ ++ t₂) = fills t₁ ++ fills t₂ := by
  unfold fills
  rw [List.flatMap_append]

theorem fills_tlsPairMatches {pair : TlsPair} {cipher : String} {matched : Bool}
    (h : (tlsPairMatches pair cipher).Runs t matched) : fills t = [] := by
  have hwp : (recorder 0).wp (tlsPairMatches pair cipher) (fun _ regions => regions = []) [] := by
    have hversion : ∀ ssl, ∀ Q : Int → List (Region UInt8) → Prop, (∀ v, Q v []) →
        (recorder 0).wp (sslVersion ssl) Q [] := by
      rintro ssl Q hQ
      refine ⟨trivial, ?_⟩
      rintro v _ rfl
      exact hQ v
    have hname : ∀ ssl, ∀ Q : String → List (Region UInt8) → Prop, (∀ v, Q v []) →
        (recorder 0).wp (sslGetCipherName ssl) Q [] := by
      rintro ssl Q hQ
      refine ⟨trivial, ?_⟩
      rintro v _ rfl
      exact hQ v
    unfold tlsPairMatches
    rw [Env.wp_bind]
    refine hversion _ _ fun v => ?_
    split_ifs
    · rfl
    rw [Env.wp_bind]
    refine hversion _ _ fun v => ?_
    split_ifs
    · rfl
    rw [Env.wp_bind]
    refine hname _ _ fun v => ?_
    split_ifs
    · rfl
    rw [Env.wp_bind]
    exact hname _ _ fun v => rfl
  exact Env.wp_sound _ hwp h (path_recorder.2 (List.nil_append _).symm) ▸ rfl

/-- A comparison that succeeds, after a transfer that did. -/
theorem delivered_of_memEq {s : Backend} {t : Trace Ssl} (hi : Intact state s)
    (hfresh : Fresh s.received.bytes (fills t) state.messageSize.toNat)
    (hmem : memEq s.plaintext.bytes s.received.bytes s.messageSize.toNat = true) :
    delivered t = state.plaintext.bytes.take state.messageSize.toNat := by
  have heq := of_decide_eq_true hmem
  rw [hi.plaintext, hi.messageSize] at heq
  rw [heq, hfresh.bytes]
  rfl

theorem verify_delivered (ht : IsTransfer state)
    (h : (ofbTlsBackendVerify state).Runs t (0, state')) :
    delivered t = state.plaintext.bytes.take state.messageSize.toNat := by
  unfold ofbTlsBackendVerify at h
  rw [ht.benchmark] at h
  simp only [] at h
  rw [Prog.runs_bind] at h
  obtain ⟨t₁, t₂, matched, rfl, h₁, h₂⟩ := h
  rcases matched with _ | _
  · simp at h₂
  rw [if_neg (by simp), Prog.runs_bind] at h₂
  obtain ⟨t₃, t₄, ⟨rc, s⟩, rfl, h₃, h₄⟩ := h₂
  simp only [] at h₄
  split_ifs at h₄ with hrc heq
  · simp at h₄
  · rw [not_not] at hrc
    subst hrc
    obtain ⟨rfl, -⟩ := h₄
    obtain ⟨-, hi, hfresh⟩ := transferOnce_fresh ht h₃
    rw [List.append_nil]
    unfold delivered
    rw [fills_append, fills_tlsPairMatches h₁, List.nil_append]
    exact delivered_of_memEq hi (hfresh rfl) heq
  · simp at h₄

/-- The runs of a batch that returns 0: its last transfer follows the others. -/
theorem transferBatch_last {k : ℕ} (h : (transferBatch state (k + 1)).Runs t (0, state')) :
    ∃ before last s, t = before ++ last ∧ (transferBatch state k).Runs before (0, s)
      ∧ (transferOnce s).Runs last (0, state') := by
  rw [transferBatch_add, Prog.runs_bind] at h
  obtain ⟨before, last, ⟨rc, s⟩, rfl, hbefore, hlast⟩ := h
  simp only [] at hlast
  split_ifs at hlast with hrc
  · simp at hlast
  rw [not_not] at hrc
  subst hrc
  rw [transferBatch, Prog.runs_bind] at hlast
  obtain ⟨t₁, t₂, ⟨rc, s₁⟩, rfl, h₁, h₂⟩ := hlast
  simp only [] at h₂
  split_ifs at h₂ with hrc
  · simp at h₂
  rw [not_not] at hrc
  subst hrc
  obtain ⟨rfl, h₂⟩ := h₂
  obtain ⟨-, rfl⟩ := Prod.mk.inj h₂
  rw [List.append_nil]
  exact ⟨before, t₁, s, rfl, hbefore, h₁⟩

/-- The transfers of a batch up to its last one, `before`, and that one, `last`. -/
structure LastTransfer (state : Backend) (k : ℕ) (t before last : Trace Ssl) : Prop where
  split : t = before ++ last
  runs : ∃ s s', (transferBatch state k).Runs before (0, s) ∧ (transferOnce s).Runs last (0, s')

theorem runBatch_delivered {iterations : UInt64} {k : ℕ} (ht : IsTransfer state)
    (hk : iterations.toNat = k + 1)
    (h : (ofbTlsBackendRunBatch state iterations).Runs t (0, state')) :
    ∃ before last, LastTransfer state k t before last
      ∧ delivered last = state.plaintext.bytes.take state.messageSize.toNat := by
  unfold ofbTlsBackendRunBatch at h
  rw [ht.benchmark] at h
  simp only [] at h
  rw [Prog.runs_bind, hk] at h
  obtain ⟨t₁, t₂, ⟨rc, s₁⟩, rfl, h₁, h₂⟩ := h
  simp only [] at h₂
  by_cases hrc : rc = 0
  swap
  · rw [if_pos hrc] at h₂
    simp at h₂
  subst hrc
  by_cases heq : memEq s₁.plaintext.bytes s₁.received.bytes s₁.messageSize.toNat = true
  swap
  · rw [if_neg (by simp), if_neg heq] at h₂
    simp at h₂
  rw [if_neg (by simp), if_pos heq] at h₂
  obtain ⟨rfl, -⟩ := h₂
  obtain ⟨before, last, s, rfl, hbefore, hlast⟩ := transferBatch_last h₁
  have hs : Intact state s := transferBatch_intact ht k _ _ hbefore
  obtain ⟨-, hi, hfresh⟩ := transferOnce_fresh (hs.isTransfer ht) hlast
  rw [List.append_nil]
  refine ⟨before, last, ⟨rfl, s, s₁, hbefore, hlast⟩, ?_⟩
  rw [hs.messageSize] at hfresh
  exact delivered_of_memEq (hs.trans hi) (hfresh rfl) heq

end Backend

/-- Whatever the library answers, a transfer ends after at most two calls for each byte, reads and
writes non-empty regions of the message only, and when it returns 0 what its reads filled is the
message, each byte once and in order. So a `verify` that returns 0 was delivered the plaintext, and
so was the last transfer of a batch. -/
theorem transfer_delivered (state : Backend) (ht : IsTransfer state) :
    (transferOnce state).EndsWithin (2 * state.messageSize.toNat)
    ∧ (∀ t rc state', (transferOnce state).Runs t (rc, state') →
        (∀ e ∈ t, Within state.messageSize.toNat e.1)
          ∧ (rc = 0 → Tiles 0 (fills t) state.messageSize.toNat
            ∧ (fills t).Pairwise (fun r s => r.stop ≤ s.offset)
            ∧ (∀ i, i < state.messageSize.toNat ↔ ∃ r ∈ fills t, r.offset ≤ i ∧ i < r.stop)
            ∧ state'.received.bytes.take state.messageSize.toNat = delivered t))
    ∧ (∀ t state', (ofbTlsBackendVerify state).Runs t (0, state') →
        delivered t = state.plaintext.bytes.take state.messageSize.toNat)
    ∧ ∀ iterations k t state', iterations.toNat = k + 1 →
        (ofbTlsBackendRunBatch state iterations).Runs t (0, state') →
        ∃ before last, LastTransfer state k t before last
          ∧ delivered last = state.plaintext.bytes.take state.messageSize.toNat := by
  refine ⟨transferOnce_endsWithin state, fun t rc state' h => ?_,
    fun t state' h => verify_delivered ht h,
    fun iterations k t state' hk h => runBatch_delivered ht hk h⟩
  obtain ⟨hwithin, -, hfresh⟩ := transferOnce_fresh ht h
  refine ⟨hwithin, fun h0 => ?_⟩
  have hf := hfresh h0
  refine ⟨hf.tiles, hf.tiles.pairwise, fun i => ?_, hf.bytes⟩
  rw [← hf.tiles.cover i]
  exact (and_iff_right (Nat.zero_le i)).symm

theorem transfer_delivered_threeBytes :
    ∃ t state', (ofbTlsBackendVerify threeBytes).Runs t (0, state')
      ∧ delivered t = [11, 40, 69] := by
  have ht : IsTransfer threeBytes := ⟨rfl, by decide, by decide⟩
  obtain ⟨t, ⟨rc, state'⟩, q, hrun, hpath⟩ :=
    Env.wp_exists_run _ (wp_verify ht) fun q c _ => queueEnv_answers c
  obtain ⟨rfl, -⟩ := Env.wp_sound _ (wp_verify ht) hrun hpath
  exact ⟨t, state', hrun, (transfer_delivered threeBytes ht).2.2.1 t state' hrun⟩

end Tls

end OfbBench
