import OfbBench.OpensslAead

/-!
# The stored ciphertext and tag stay right

The library is an authenticated encryption scheme (`Scheme`) behind contexts that go through the
phases of an encryption or a decryption (`Phase`); each call of a phase succeeds with one effect
(`Succeeds`), or fails (`Fails`) where faults are allowed, and nothing is promised of a call made in
another phase (`evpEnv`).

A backend is a `Fixture` when its ciphertext and tag are those of its key, nonce, AAD and plaintext.
`create` makes one; every call keeps it, however the library fails, since it writes the output
buffer and, when nothing failed, the tag it already has (`wp_use`). Where nothing fails the calls
succeed.
-/

namespace OfbBench.Aead

/-! ## The library -/

/-- Authenticated encryption; `decrypt` is the decryption before the tag is checked. -/
structure Scheme where
  enc : Cipher → (key nonce aad plaintext : List UInt8) → List UInt8 × List UInt8
  decrypt : Cipher → (key nonce aad ciphertext : List UInt8) → List UInt8
  decrypt_enc : ∀ c k n a p, decrypt c k n a (enc c k n a p).1 = p
  length_enc : ∀ c k n a p, (enc c k n a p).1.length = p.length

section Scheme

variable (scheme : Scheme) (c : Cipher) (k n a : List UInt8)

/-- A ciphertext and a tag are accepted if they are those of the plaintext they decrypt to. -/
def Scheme.dec (ciphertext tag : List UInt8) : Option (List UInt8) :=
  if scheme.enc c k n a (scheme.decrypt c k n a ciphertext) = (ciphertext, tag) then
    some (scheme.decrypt c k n a ciphertext)
  else none

/-- Decryption accepts exactly what encryption produces, and returns its plaintext. -/
theorem Scheme.dec_eq_some {ciphertext tag p : List UInt8} :
    scheme.dec c k n a ciphertext tag = some p ↔ scheme.enc c k n a p = (ciphertext, tag) := by
  unfold Scheme.dec
  constructor
  · intro h
    split_ifs at h with he
    rw [Option.some.injEq] at h
    exact h ▸ he
  · intro h
    have hp : scheme.decrypt c k n a ciphertext = p := by
      have := scheme.decrypt_enc c k n a p
      rwa [h] at this
    rw [hp, if_pos h]

end Scheme

/-- What a context has been given of an encryption or decryption. -/
structure Session where
  cipher : Cipher
  key : List UInt8
  nonce : List UInt8
  aad : List UInt8
  input : List UInt8
  deriving DecidableEq, Repr

/-- How far a context is. In `unknown` it may hold anything. -/
inductive Phase
  | unknown
  | cipherSet (direction : Direction) (cipher : Cipher)
  | ivLenSet (direction : Direction) (cipher : Cipher)
  | keySet (direction : Direction) (cipher : Cipher) (key nonce : List UInt8)
  | aadGiven (direction : Direction) (cipher : Cipher) (key nonce aad : List UInt8)
  | dataGiven (direction : Direction) (session : Session)
  | tagSet (session : Session) (tag : List UInt8)
  | finished (session : Session)
  deriving DecidableEq, Repr

/-- The bytes the data call of an encryption or decryption writes. -/
def Scheme.output (scheme : Scheme) : Direction → Session → List UInt8
  | .encrypt, s => (scheme.enc s.cipher s.key s.nonce s.aad s.input).1
  | .decrypt, s => scheme.decrypt s.cipher s.key s.nonce s.aad s.input

/-- A call of a phase, its answer when it does not fail, and the phase after it. Initialising with a
cipher is a call of every phase. -/
inductive Succeeds (scheme : Scheme) :
    Phase → (call : Evp.Call) → Evp.Resp call → Phase → Prop
  | initCipher {phase direction ctx cipher} : Succeeds scheme phase
      (.initCipher direction ctx (some cipher)) (1 : Int) (.cipherSet direction cipher)
  | setIvLen {direction cipher ctx} : Succeeds scheme (.cipherSet direction cipher)
      (.setIvLen ctx nonceSize) (1 : Int) (.ivLenSet direction cipher)
  | initKey {direction cipher ctx key nonce} : Succeeds scheme (.ivLenSet direction cipher)
      (.initKey direction ctx key nonce) (1 : Int) (.keySet direction cipher key nonce)
  | updateAad {direction cipher key nonce ctx aad} : Succeeds scheme
      (.keySet direction cipher key nonce) (.updateAad direction ctx aad) (1 : Int)
      (.aadGiven direction cipher key nonce aad)
  | update {direction cipher key nonce aad ctx room input answer}
      (result : answer.result = 1) (len : answer.len = input.length)
      (data : answer.data = scheme.output direction ⟨cipher, key, nonce, aad, input⟩) :
      Succeeds scheme (.aadGiven direction cipher key nonce aad)
        (.update direction ctx room input) answer
        (.dataGiven direction ⟨cipher, key, nonce, aad, input⟩)
  | finalEncrypt {session ctx room answer} (result : answer.result = 1) (data : answer.data = []) :
      Succeeds scheme (.dataGiven .encrypt session) (.final .encrypt ctx room) answer
        (.finished session)
  | getTag {session ctx tag answer} (result : answer.result = 1)
      (written : answer.tag = (scheme.enc session.cipher session.key session.nonce session.aad
        session.input).2) :
      Succeeds scheme (.finished session) (.getTag ctx tag) answer (.finished session)
  | setTag {session ctx tag} : Succeeds scheme (.dataGiven .decrypt session) (.setTag ctx tag)
      (1 : Int) (.tagSet session tag)
  | finalDecrypt {session tag ctx room answer}
      (accepted : (scheme.dec session.cipher session.key session.nonce session.aad session.input
        tag).isSome) (result : answer.result = 1) (data : answer.data = []) :
      Succeeds scheme (.tagSet session tag) (.final .decrypt ctx room) answer (.finished session)
  | reject {session tag ctx room answer}
      (rejected : scheme.dec session.cipher session.key session.nonce session.aad session.input
        tag = none) (result : answer.result ≠ 1) :
      Succeeds scheme (.tagSet session tag) (.final .decrypt ctx room) answer .unknown

/-- The answer of a call that fails. A failed call may have written anything to its output buffer,
but not to the tag buffer. -/
def Fails : (call : Evp.Call) → Evp.Resp call → Prop
  | .ctxNew, answer => answer = none
  | .initCipher _ _ _, (result : Int) => result ≠ 1
  | .setIvLen _ _, (result : Int) => result ≠ 1
  | .initKey _ _ _ _, (result : Int) => result ≠ 1
  | .updateAad _ _ _, (result : Int) => result ≠ 1
  | .update _ _ _ _, answer => answer.result ≠ 1
  | .final _ _ _, answer => answer.result ≠ 1
  | .getTag _ tag, answer => answer.result ≠ 1 ∧ answer.tag = tag
  | .setTag _ _, (result : Int) => result ≠ 1
  | _, _ => False

/-- The context argument of a call, for those that work on one. -/
def contextOf : Evp.Call → Option (Option Ptr)
  | .initCipher _ ctx _ => some ctx
  | .setIvLen ctx _ => some ctx
  | .initKey _ ctx _ _ => some ctx
  | .updateAad _ ctx _ => some ctx
  | .update _ ctx _ _ => some ctx
  | .final _ ctx _ => some ctx
  | .getTag ctx _ => some ctx
  | .setTag ctx _ => some ctx
  | _ => none

/-- A call the phase of its context allows. -/
def Promised (scheme : Scheme) (phase : Phase) (call : Evp.Call) : Prop :=
  ∃ answer phase', Succeeds scheme phase call answer phase'

/-- The library, whose calls may fail if `faults` holds. A call that works on no context says
nothing of the contexts. -/
def evpEnv (scheme : Scheme) (faults : Prop) : Env Evp (Ptr → Phase) where
  pre phases call :=
    match contextOf call with
    | none => True
    | some none => False
    | some (some ctx) => Promised scheme (phases ctx) call
  step phases call answer phases' :=
    match contextOf call with
    | none => Fails call answer → faults
    | some none => True
    | some (some ctx) => Promised scheme (phases ctx) call →
      Succeeds scheme (phases ctx) call answer (phases' ctx) ∨ (faults ∧ Fails call answer)

section Calls

variable {scheme : Scheme} {faults : Prop} {phases : Ptr → Phase} {ctx : Ptr}

/-- A call of the phase its context is in. -/
theorem wp_context {phase : Phase} {call : Evp.Call}
    {Q : Evp.Resp call → (Ptr → Phase) → Prop} (hphase : phases ctx = phase)
    (hctx : contextOf call = some (some ctx)) (hp : Promised scheme phase call)
    (hok : ∀ answer phases', Succeeds scheme phase call answer (phases' ctx) → Q answer phases')
    (hfail : faults → ∀ answer phases', Fails call answer → Q answer phases') :
    (evpEnv scheme faults).wp (Prog.ask (A := Evp) call) Q phases := by
  subst hphase
  refine ⟨?_, fun answer phases' hs => ?_⟩
  · simp only [evpEnv, hctx]
    exact hp
  · simp only [evpEnv, hctx] at hs
    rcases hs hp with hs | ⟨hf, hs⟩
    · exact hok answer phases' hs
    · exact hfail hf answer phases' hs

/-- A call that works on no context. -/
theorem wp_other {call : Evp.Call} {Q : Evp.Resp call → (Ptr → Phase) → Prop}
    (hctx : contextOf call = none)
    (hQ : ∀ answer phases', (Fails call answer → faults) → Q answer phases') :
    (evpEnv scheme faults).wp (Prog.ask (A := Evp) call) Q phases := by
  refine ⟨?_, fun answer phases' hs => ?_⟩
  · simp only [evpEnv, hctx]
  · simp only [evpEnv, hctx] at hs
    exact hQ answer phases' hs

/-- What is allowed is answered, also when nothing may fail. -/
theorem evpEnv_answers (phases : Ptr → Phase) (call : Evp.Call)
    (h : (evpEnv scheme faults).pre phases call) :
    ∃ answer phases', (evpEnv scheme faults).step phases call answer phases' := by
  rcases hctx : contextOf call with _ | _ | ctx
  · simp only [evpEnv, hctx]
    cases call with
    | ctxNew => exact ⟨some 0, phases, fun h => by simp [Fails] at h⟩
    | callocState => exact ⟨none, phases, False.elim⟩
    | calloc size => exact ⟨none, phases, False.elim⟩
    | malloc size => exact ⟨none, phases, False.elim⟩
    | memFree ptr => exact ⟨(), phases, False.elim⟩
    | ctxFree ctx => exact ⟨(), phases, False.elim⟩
    | _ => simp [contextOf] at hctx
  · simp only [evpEnv, hctx] at h
  · simp only [evpEnv, hctx] at h ⊢
    obtain ⟨answer, phase', hs⟩ := h
    refine ⟨answer, Function.update phases ctx phase', fun _ => .inl ?_⟩
    rw [Function.update_self]
    exact hs

end Calls

section Calls

variable {scheme : Scheme} {faults : Prop} {phases : Ptr → Phase} {ctx : Ptr}
  {direction : Direction} {cipher : Cipher} {key nonce aad : List UInt8} {session : Session}

theorem wp_evpInitCipher {Q : Int → (Ptr → Phase) → Prop}
    (hok : ∀ phases', phases' ctx = .cipherSet direction cipher → Q 1 phases')
    (hfail : faults → ∀ rc phases', rc ≠ 1 → Q rc phases') :
    (evpEnv scheme faults).wp (evpInitCipher direction (some ctx) (some cipher)) Q phases := by
  refine wp_context rfl rfl ⟨_, _, .initCipher⟩ (fun rc phases' hs => ?_) hfail
  generalize phases ctx = phase at hs
  generalize hphase : phases' ctx = phase' at hs
  cases hs
  exact hok phases' hphase

theorem wp_evpSetIvLen {Q : Int → (Ptr → Phase) → Prop}
    (hphase : phases ctx = .cipherSet direction cipher)
    (hok : ∀ phases', phases' ctx = .ivLenSet direction cipher → Q 1 phases')
    (hfail : faults → ∀ rc phases', rc ≠ 1 → Q rc phases') :
    (evpEnv scheme faults).wp (evpSetIvLen (some ctx) nonceSize) Q phases := by
  refine wp_context hphase rfl ⟨_, _, .setIvLen⟩ (fun rc phases' hs => ?_) hfail
  generalize hphase' : phases' ctx = phase' at hs
  cases hs
  exact hok phases' hphase'

theorem wp_evpInitKey {Q : Int → (Ptr → Phase) → Prop}
    (hphase : phases ctx = .ivLenSet direction cipher)
    (hok : ∀ phases', phases' ctx = .keySet direction cipher key nonce → Q 1 phases')
    (hfail : faults → ∀ rc phases', rc ≠ 1 → Q rc phases') :
    (evpEnv scheme faults).wp (evpInitKey direction (some ctx) key nonce) Q phases := by
  refine wp_context hphase rfl ⟨_, _, .initKey⟩ (fun rc phases' hs => ?_) hfail
  generalize hphase' : phases' ctx = phase' at hs
  cases hs
  exact hok phases' hphase'

theorem wp_evpUpdateAad {Q : Int → (Ptr → Phase) → Prop}
    (hphase : phases ctx = .keySet direction cipher key nonce)
    (hok : ∀ phases', phases' ctx = .aadGiven direction cipher key nonce aad → Q 1 phases')
    (hfail : faults → ∀ rc phases', rc ≠ 1 → Q rc phases') :
    (evpEnv scheme faults).wp (evpUpdateAad direction (some ctx) aad) Q phases := by
  refine wp_context hphase rfl ⟨_, _, .updateAad⟩ (fun rc phases' hs => ?_) hfail
  generalize hphase' : phases' ctx = phase' at hs
  cases hs
  exact hok phases' hphase'

theorem wp_evpUpdate {room : ℕ} {input : List UInt8}
    {Q : Written room → (Ptr → Phase) → Prop}
    (hphase : phases ctx = .aadGiven direction cipher key nonce aad)
    (hroom : (scheme.output direction ⟨cipher, key, nonce, aad, input⟩).length ≤ room)
    (hok : ∀ answer phases',
      phases' ctx = .dataGiven direction ⟨cipher, key, nonce, aad, input⟩ → answer.result = 1 →
      answer.len = input.length →
      answer.data = scheme.output direction ⟨cipher, key, nonce, aad, input⟩ → Q answer phases')
    (hfail : faults → ∀ answer phases', answer.result ≠ 1 → Q answer phases') :
    (evpEnv scheme faults).wp (evpUpdate direction (some ctx) room input) Q phases := by
  refine wp_context hphase rfl
    ⟨⟨1, input.length, _, hroom⟩, _, .update rfl rfl rfl⟩ (fun answer phases' hs => ?_) hfail
  generalize hphase' : phases' ctx = phase' at hs
  cases hs with
  | update result len data => exact hok answer phases' hphase' result len data

theorem wp_evpFinal_encrypt {room : ℕ} {Q : Written room → (Ptr → Phase) → Prop}
    (hphase : phases ctx = .dataGiven .encrypt session)
    (hok : ∀ answer phases', phases' ctx = .finished session → answer.result = 1 →
      answer.data = [] → Q answer phases')
    (hfail : faults → ∀ answer phases', answer.result ≠ 1 → Q answer phases') :
    (evpEnv scheme faults).wp (evpFinal .encrypt (some ctx) room) Q phases := by
  refine wp_context hphase rfl ⟨⟨1, 0, [], Nat.zero_le _⟩, _, .finalEncrypt rfl rfl⟩
    (fun answer phases' hs => ?_) hfail
  generalize hphase' : phases' ctx = phase' at hs
  cases hs with
  | finalEncrypt result data => exact hok answer phases' hphase' result data

theorem wp_evpGetTag {tag : List UInt8} {Q : TagAnswer → (Ptr → Phase) → Prop}
    (hphase : phases ctx = .finished session)
    (hok : ∀ answer phases', answer.result = 1 → answer.tag
      = (scheme.enc session.cipher session.key session.nonce session.aad session.input).2 →
      Q answer phases')
    (hfail : faults → ∀ answer phases', answer.result ≠ 1 → answer.tag = tag →
      Q answer phases') :
    (evpEnv scheme faults).wp (evpGetTag (some ctx) tag) Q phases := by
  refine wp_context hphase rfl ⟨⟨1, _⟩, _, .getTag rfl rfl⟩ (fun answer phases' hs => ?_)
    fun hf answer phases' hs => hfail hf answer phases' hs.1 hs.2
  generalize hphase' : phases' ctx = phase' at hs
  cases hs with
  | getTag result written => exact hok answer phases' result written

theorem wp_evpSetTag {tag : List UInt8} {Q : Int → (Ptr → Phase) → Prop}
    (hphase : phases ctx = .dataGiven .decrypt session)
    (hok : ∀ phases', phases' ctx = .tagSet session tag → Q 1 phases')
    (hfail : faults → ∀ rc phases', rc ≠ 1 → Q rc phases') :
    (evpEnv scheme faults).wp (evpSetTag (some ctx) tag) Q phases := by
  refine wp_context hphase rfl ⟨_, _, .setTag⟩ (fun rc phases' hs => ?_) hfail
  generalize hphase' : phases' ctx = phase' at hs
  cases hs
  exact hok phases' hphase'

/-- The last call of the decryption of what encryption produced. -/
theorem wp_evpFinal_decrypt {room : ℕ} {tag p : List UInt8}
    {Q : Written room → (Ptr → Phase) → Prop} (hphase : phases ctx = .tagSet session tag)
    (haccepted : scheme.dec session.cipher session.key session.nonce session.aad session.input tag
      = some p)
    (hok : ∀ answer phases', answer.result = 1 → answer.data = [] → Q answer phases')
    (hfail : faults → ∀ answer phases', answer.result ≠ 1 → Q answer phases') :
    (evpEnv scheme faults).wp (evpFinal .decrypt (some ctx) room) Q phases := by
  refine wp_context hphase rfl
    ⟨⟨1, 0, [], Nat.zero_le _⟩, _, .finalDecrypt (by rw [haccepted]; rfl) rfl rfl⟩
    (fun answer phases' hs => ?_) hfail
  generalize hphase' : phases' ctx = phase' at hs
  cases hs with
  | finalDecrypt accepted result data => exact hok answer phases' result data
  | reject rejected result =>
    rw [haccepted] at rejected
    simp at rejected

theorem wp_evpCtxNew {Q : Option Ptr → (Ptr → Phase) → Prop}
    (hok : ∀ ctx phases', Q (some ctx) phases') (hfail : faults → ∀ phases', Q none phases') :
    (evpEnv scheme faults).wp evpCtxNew Q phases := by
  refine wp_other rfl fun ctx phases' hs => ?_
  rcases ctx with _ | ctx
  · exact hfail (hs rfl) phases'
  · exact hok ctx phases'

theorem wp_evpCtxFree {ctx : Option Ptr} {Q : Unit → (Ptr → Phase) → Prop}
    (hQ : ∀ phases', Q () phases') : (evpEnv scheme faults).wp (evpCtxFree ctx) Q phases :=
  wp_other rfl fun _ phases' _ => hQ phases'

end Calls

/-! ## The output buffer -/

section Output

variable {out data : List UInt8}

theorem length_splice_written (answer : Written out.length) :
    (splice out 0 answer.data).length = out.length :=
  length_splice (by rw [Nat.zero_add]; exact answer.length_data)

/-- The final call writes behind the data. -/
theorem length_splice_last (answer : Written out.length) (h : answer.len ≤ out.length)
    (last : Written ((splice out 0 answer.data).length - answer.len)) :
    (splice (splice out 0 answer.data) answer.len last.data).length = out.length := by
  have hlast := last.length_data
  have hs := length_splice_written answer
  rw [length_splice (by omega), hs]

theorem take_splice_written : (splice out 0 data).take data.length = data := by
  have h := @take_splice out data 0 (Nat.zero_le out.length)
  rwa [Nat.zero_add, List.take_zero, List.nil_append] at h

end Output

/-! ## The backend -/

section Backend

variable {scheme : Scheme} {faults : Prop} {phases : Ptr → Phase} {ctx : Ptr} {state : Backend}
  {cipher : Cipher}

theorem wp_start {direction : Direction} {Q : Int → (Ptr → Phase) → Prop}
    (hc : state.cipher = some cipher)
    (hok : ∀ phases', phases' ctx
      = .aadGiven direction cipher state.key state.nonce state.aadBytes → Q 0 phases')
    (hfail : faults → ∀ phases', Q (-1) phases') :
    (evpEnv scheme faults).wp (start state direction (some ctx)) Q phases := by
  unfold start
  rw [Env.wp_bind, hc]
  refine wp_evpInitCipher (fun phases₁ h₁ => ?_) fun hf rc phases' hrc => ?_
  swap
  · rw [if_pos hrc]
    exact hfail hf phases'
  rw [if_neg (not_not.2 rfl), Env.wp_bind]
  refine wp_evpSetIvLen h₁ (fun phases₂ h₂ => ?_) fun hf rc phases' hrc => ?_
  swap
  · rw [if_pos hrc]
    exact hfail hf phases'
  rw [if_neg (not_not.2 rfl), Env.wp_bind]
  refine wp_evpInitKey h₂ (fun phases₃ h₃ => ?_) fun hf rc phases' hrc => ?_
  swap
  · rw [if_pos hrc]
    exact hfail hf phases'
  rw [if_neg (not_not.2 rfl), Env.wp_bind]
  refine wp_evpUpdateAad h₃ (fun phases₄ h₄ => ?_) fun hf rc phases' hrc => ?_
  swap
  · rw [if_pos hrc]
    exact hfail hf phases'
  rw [if_neg (not_not.2 rfl)]
  exact hok phases₄ h₄

/-- The ciphertext and tag of a backend's plaintext. -/
def Backend.enc (scheme : Scheme) (state : Backend) (cipher : Cipher) : List UInt8 × List UInt8 :=
  scheme.enc cipher state.key state.nonce state.aadBytes state.message

/-- A successful encryption yields the ciphertext and the tag; one that fails has written the
output buffer at most. -/
theorem wp_encryptWith {out tag : List UInt8} {Q : Int × List UInt8 × List UInt8 →
    (Ptr → Phase) → Prop} (hc : state.cipher = some cipher)
    (hout : state.message.length ≤ out.length)
    (hok : ∀ out' phases', out'.length = out.length →
      out'.take state.message.length = (state.enc scheme cipher).1 →
      Q (0, out', (state.enc scheme cipher).2) phases')
    (hfail : faults → ∀ out' phases', out'.length = out.length → Q (-1, out', tag) phases') :
    (evpEnv scheme faults).wp (encryptWith state (some ctx) out tag) Q phases := by
  have hlen : (state.enc scheme cipher).1.length = state.message.length :=
    scheme.length_enc _ _ _ _ _
  unfold encryptWith
  rw [Env.wp_bind]
  refine wp_start hc (fun phases₁ h₁ => ?_) fun hf phases' => ?_
  swap
  · exact hfail hf out phases' rfl
  rw [if_neg (not_not.2 rfl), Env.wp_bind]
  refine wp_evpUpdate h₁ (hlen.trans_le hout) (fun data phases₂ h₂ hresult hdlen hdata => ?_)
    fun hf data phases' hresult => ?_
  swap
  · simp only [if_pos hresult]
    exact hfail hf _ phases' (length_splice_written data)
  rw [if_neg (not_not.2 hresult), Env.wp_bind]
  refine wp_evpFinal_encrypt h₂ (fun last phases₃ h₃ hresult₃ hdata₃ => ?_)
    fun hf last phases' hresult₃ => ?_
  swap
  · simp only [if_pos hresult₃]
    exact hfail hf _ phases' (length_splice_last data (hdlen.trans_le hout) last)
  rw [if_neg (not_not.2 hresult₃), Env.wp_bind, hdata₃, splice_nil]
  refine wp_evpGetTag h₃ (fun answer phases₄ hresult₄ htag => ?_)
    fun hf answer phases' hresult₄ htag => ?_
  swap
  · rw [if_pos hresult₄, htag]
    exact hfail hf _ phases' (length_splice_written data)
  rw [if_neg (not_not.2 hresult₄), htag]
  refine hok _ phases₄ (length_splice_written data) ?_
  rw [hdata, ← hlen]
  exact take_splice_written

/-- A backend whose stored ciphertext and tag are those of its plaintext. -/
structure Fixture (scheme : Scheme) (state : Backend) (cipher : Cipher) : Prop where
  known : state.cipher = some cipher
  authentic : state.enc scheme cipher = (state.sealed, state.tag)
  ctx : state.ctx ≠ none
  plaintext : state.messageSize.toNat ≤ state.plaintext.bytes.length
  output : state.messageSize.toNat ≤ state.output.bytes.length

theorem length_message (h : state.messageSize.toNat ≤ state.plaintext.bytes.length) :
    state.message.length = state.messageSize.toNat := by
  unfold Backend.message
  rw [List.length_take, min_eq_left h]

/-- A successful decryption of the stored ciphertext yields the plaintext. -/
theorem wp_decryptWith {out : List UInt8} {Q : Int × List UInt8 → (Ptr → Phase) → Prop}
    (h : Fixture scheme state cipher) (hout : state.messageSize.toNat ≤ out.length)
    (hok : ∀ out' phases', out'.length = out.length →
      out'.take state.messageSize.toNat = state.message → Q (0, out') phases')
    (hfail : faults → ∀ out' phases', out'.length = out.length → Q (-1, out') phases') :
    (evpEnv scheme faults).wp (decryptWith state (some ctx) out) Q phases := by
  have hmessage := length_message h.plaintext
  have hsealed : (state.enc scheme cipher).1 = state.sealed := by rw [h.authentic]
  have hlen : state.sealed.length = state.messageSize.toNat := by
    rw [← hsealed, ← hmessage]
    exact scheme.length_enc _ _ _ _ _
  have houtput : scheme.output .decrypt ⟨cipher, state.key, state.nonce, state.aadBytes,
      state.sealed⟩ = state.message := by
    rw [← hsealed]
    exact scheme.decrypt_enc _ _ _ _ _
  unfold decryptWith
  rw [Env.wp_bind]
  refine wp_start h.known (fun phases₁ h₁ => ?_) fun hf phases' => ?_
  swap
  · exact hfail hf out phases' rfl
  rw [if_neg (not_not.2 rfl), Env.wp_bind]
  refine wp_evpUpdate h₁ (by rw [houtput, hmessage]; exact hout)
    (fun data phases₂ h₂ hresult hdlen hdata => ?_) fun hf data phases' hresult => ?_
  swap
  · simp only [if_pos hresult]
    exact hfail hf _ phases' (length_splice_written data)
  rw [houtput] at hdata
  rw [if_neg (not_not.2 hresult), Env.wp_bind]
  refine wp_evpSetTag h₂ (fun phases₃ h₃ => ?_) fun hf rc phases' hrc => ?_
  swap
  · rw [if_pos hrc]
    exact hfail hf _ phases' (length_splice_written data)
  rw [if_neg (not_not.2 rfl), Env.wp_bind]
  have haccepted : scheme.dec cipher state.key state.nonce state.aadBytes state.sealed state.tag
      = some state.message := (scheme.dec_eq_some _ _ _ _).2 h.authentic
  refine wp_evpFinal_decrypt h₃ haccepted (fun last phases₄ hresult₄ hdata₄ => ?_)
    fun hf last phases' hresult₄ => ?_
  swap
  · simp only [if_pos hresult₄]
    exact hfail hf _ phases' (length_splice_last data ((hdlen.trans hlen).trans_le hout) last)
  rw [if_neg (not_not.2 hresult₄), hdata₄, splice_nil]
  refine hok _ phases₄ (length_splice_written data) ?_
  rw [hdata, ← hmessage]
  exact take_splice_written

theorem wp_encryptOnce {out tag : List UInt8} {Q : Int × List UInt8 × List UInt8 →
    (Ptr → Phase) → Prop} (hc : state.cipher = some cipher)
    (hout : state.message.length ≤ out.length)
    (hok : ∀ out' phases', out'.length = out.length →
      out'.take state.message.length = (state.enc scheme cipher).1 →
      Q (0, out', (state.enc scheme cipher).2) phases')
    (hfail : faults → ∀ out' phases', out'.length = out.length → Q (-1, out', tag) phases') :
    (evpEnv scheme faults).wp (encryptOnce state out tag) Q phases := by
  unfold encryptOnce
  rw [Env.wp_bind]
  refine wp_evpCtxNew (fun ctx phases₁ => ?_) fun hf phases₁ => ?_
  · simp only
    rw [Env.wp_bind]
    refine wp_encryptWith hc hout (fun out' phases₂ hlen htake => ?_) fun hf out' phases₂ hlen => ?_
    · rw [Env.wp_bind]
      exact wp_evpCtxFree fun phases₃ => hok out' phases₃ hlen htake
    · rw [Env.wp_bind]
      exact wp_evpCtxFree fun phases₃ => hfail hf out' phases₃ hlen
  · simp only
    rw [Env.wp_bind]
    exact wp_evpCtxFree fun phases₂ => hfail hf out phases₂ rfl

theorem wp_decryptOnce {out : List UInt8} {Q : Int × List UInt8 → (Ptr → Phase) → Prop}
    (h : Fixture scheme state cipher) (hout : state.messageSize.toNat ≤ out.length)
    (hok : ∀ out' phases', out'.length = out.length →
      out'.take state.messageSize.toNat = state.message → Q (0, out') phases')
    (hfail : faults → ∀ out' phases', out'.length = out.length → Q (-1, out') phases') :
    (evpEnv scheme faults).wp (decryptOnce state out) Q phases := by
  unfold decryptOnce
  rw [Env.wp_bind]
  refine wp_evpCtxNew (fun ctx phases₁ => ?_) fun hf phases₁ => ?_
  · simp only
    rw [Env.wp_bind]
    refine wp_decryptWith h hout (fun out' phases₂ hlen htake => ?_) fun hf out' phases₂ hlen => ?_
    · rw [Env.wp_bind]
      exact wp_evpCtxFree fun phases₃ => hok out' phases₃ hlen htake
    · rw [Env.wp_bind]
      exact wp_evpCtxFree fun phases₃ => hfail hf out' phases₃ hlen
  · simp only
    rw [Env.wp_bind]
    exact wp_evpCtxFree fun phases₂ => hfail hf out phases₂ rfl

/-- `state` after calls that changed its output bytes and its checksum only. -/
structure Kept (init state : Backend) : Prop where
  same : state = { init with
    output := ⟨init.output.ptr, state.output.bytes⟩, checksum := state.checksum }
  length : state.output.bytes.length = init.output.bytes.length

theorem Kept.refl (state : Backend) : Kept state state := ⟨rfl, rfl⟩

theorem Kept.trans {s₁ s₂ s₃ : Backend} (h₁ : Kept s₁ s₂) (h₂ : Kept s₂ s₃) : Kept s₁ s₃ := by
  refine ⟨?_, h₂.length.trans h₁.length⟩
  rw [h₂.same, h₁.same]

theorem Kept.withChecksum {init state : Backend} (h : Kept init state) (checksum : UInt8) :
    Kept init { state with checksum := checksum } :=
  ⟨congrArg (fun s : Backend => { s with checksum := checksum }) h.same, h.length⟩

theorem Kept.fixture {init state : Backend} (h : Kept init state)
    (hf : Fixture scheme init cipher) : Fixture scheme state cipher := by
  have hout := hf.output
  rw [← h.length] at hout
  rw [h.same]
  exact ⟨hf.known, hf.authentic, hf.ctx, hf.plaintext, hout⟩

theorem kept_withOutput {out : List UInt8} (h : out.length = state.output.bytes.length) :
    Kept state (state.withOutput out) := ⟨rfl, h⟩

/-- Whatever fails, a call keeps the fixture; when nothing fails, it succeeds. -/
theorem wp_verify {unset : List UInt8} {Q : Int × Backend → (Ptr → Phase) → Prop}
    (h : Fixture scheme state cipher)
    (hok : ∀ state' phases', Kept state state' → Q (0, state') phases')
    (hfail : faults → ∀ state' phases', Kept state state' → Q (-1, state') phases') :
    (evpEnv scheme faults).wp (ofbBackendVerify state unset) Q phases := by
  have hmessage := length_message h.plaintext
  unfold ofbBackendVerify
  simp only
  rw [Env.wp_bind]
  refine wp_encryptOnce h.known (hmessage.trans_le h.output)
    (fun out phases₁ hlen htake => ?_) fun hf out phases₁ hlen => ?_
  swap
  · rw [if_pos (.inl (by simp))]
    exact hfail hf _ phases₁ (kept_withOutput hlen)
  have hk : Kept state (state.withOutput out) := kept_withOutput hlen
  rw [hmessage, h.authentic] at htake
  rw [h.authentic, if_neg (by simp [memEq, Backend.withOutput, htake, Backend.sealed]), Env.wp_bind]
  refine wp_decryptOnce (hk.fixture h) (by rw [hk.length]; exact h.output)
    (fun out' phases₂ hlen' htake' => ?_) fun hf out' phases₂ hlen' => ?_
  · rw [if_neg]
    · exact hok _ phases₂ (hk.trans (kept_withOutput hlen'))
    · simp only [memEq, Backend.withOutput, ne_eq, not_true_eq_false, false_or, not_not]
      exact decide_eq_true htake'
  · rw [if_pos (.inl (by simp))]
    exact hfail hf _ phases₂ (hk.trans (kept_withOutput hlen'))

theorem wp_batch {iterations : ℕ} {Q : Int × Backend → (Ptr → Phase) → Prop}
    (h : Fixture scheme state cipher)
    (hok : ∀ state' phases', Kept state state' → Q (0, state') phases')
    (hfail : faults → ∀ state' phases', Kept state state' → Q (-1, state') phases') :
    (evpEnv scheme faults).wp (batch state iterations) Q phases := by
  induction iterations generalizing state phases with
  | zero => exact hok state phases (.refl state)
  | succ iterations ih =>
    obtain ⟨ctx, hctx⟩ := Option.ne_none_iff_exists'.1 h.ctx
    have hnext : ∀ out phases', out.length = state.output.bytes.length →
        (evpEnv scheme faults).wp (batch (state.withOutput out) iterations) Q phases' := by
      intro out phases' hlen
      have hk : Kept state (state.withOutput out) := kept_withOutput hlen
      exact ih (hk.fixture h) (fun state' phases'' hk' => hok state' phases'' (hk.trans hk'))
        fun hf state' phases'' hk' => hfail hf state' phases'' (hk.trans hk')
    unfold batch
    rw [hctx]
    rcases state.operation with _ | _
    · simp only
      rw [Env.wp_bind]
      have hroom : state.message.length ≤ state.output.bytes.length :=
        (length_message h.plaintext).trans_le h.output
      refine wp_encryptWith h.known hroom (fun out phases₁ hlen _ => ?_)
        fun hf out phases₁ hlen => ?_
      · rw [h.authentic]
        exact hnext out phases₁ hlen
      · exact hfail hf _ phases₁ (kept_withOutput hlen)
    · simp only
      rw [Env.wp_bind]
      refine wp_decryptWith h h.output (fun out phases₁ hlen _ => ?_) fun hf out phases₁ hlen => ?_
      · exact hnext out phases₁ hlen
      · exact hfail hf _ phases₁ (kept_withOutput hlen)

theorem wp_runBatch {iterations : UInt64} {Q : Int × Backend → (Ptr → Phase) → Prop}
    (h : Fixture scheme state cipher)
    (hok : ∀ state' phases', Kept state state' → Q (0, state') phases')
    (hfail : faults → ∀ state' phases', Kept state state' → Q (-1, state') phases') :
    (evpEnv scheme faults).wp (ofbBackendRunBatch state iterations) Q phases := by
  unfold ofbBackendRunBatch
  rw [Env.wp_bind]
  refine wp_batch h (fun state' phases₁ hk => ?_) fun hf state' phases₁ hk => ?_
  · exact hok _ phases₁ (hk.withChecksum _)
  · exact hfail hf state' phases₁ hk

theorem wp_use (use : Use) {Q : Int × Backend → (Ptr → Phase) → Prop}
    (h : Fixture scheme state cipher)
    (hok : ∀ state' phases', Kept state state' → Q (0, state') phases')
    (hfail : faults → ∀ state' phases', Kept state state' → Q (-1, state') phases') :
    (evpEnv scheme faults).wp (use.run state) Q phases := by
  cases use with
  | verify unset => exact wp_verify h hok hfail
  | runBatch iterations => exact wp_runBatch h hok hfail

theorem wp_useAll (uses : List Use) {Q : List Int × Backend → (Ptr → Phase) → Prop}
    (h : Fixture scheme state cipher)
    (hQ : ∀ rcs state' phases', Kept state state' → Q (rcs, state') phases') :
    (evpEnv scheme faults).wp (useAll state uses) Q phases := by
  induction uses generalizing state phases Q with
  | nil => exact hQ [] state phases (.refl state)
  | cons use uses ih =>
    unfold useAll
    rw [Env.wp_bind]
    refine wp_use use h (fun state₁ phases₁ hk => ?_) fun _ state₁ phases₁ hk => ?_
    · simp only
      rw [Env.wp_bind]
      exact ih (hk.fixture h) fun rcs state₂ phases₂ hk₂ => hQ _ state₂ phases₂ (hk.trans hk₂)
    · simp only
      rw [Env.wp_bind]
      exact ih (hk.fixture h) fun rcs state₂ phases₂ hk₂ => hQ _ state₂ phases₂ (hk.trans hk₂)

end Backend

section Create

variable {scheme : Scheme} {faults : Prop} {phases : Ptr → Phase}

/-- A backend is one for `params`. -/
structure MadeFor (params : Params) (state : Backend) : Prop where
  cipher : state.cipher = findCipher params.algorithm
  operation : state.operation = params.operation
  messageSize : state.messageSize = params.messageSize
  aadSize : state.aadSize = params.aadSize

/-- What `create` has allocated, its buffers long enough if they are not NULL. -/
structure Allocated (params : Params) (state : Backend) : Prop where
  made : MadeFor params state
  plaintext : state.plaintext.ptr ≠ none →
    params.messageSize.toNat ≤ state.plaintext.bytes.length
  ciphertext : state.ciphertext.ptr ≠ none →
    params.messageSize.toNat ≤ state.ciphertext.bytes.length
  output : state.output.ptr ≠ none → params.messageSize.toNat ≤ state.output.bytes.length

theorem wp_other_any {α : Type} {call : Evp.Call} {f : Evp.Resp call → Prog Evp α}
    {Q : α → (Ptr → Phase) → Prop} (hctx : contextOf call = none)
    (h : ∀ answer phases', (evpEnv scheme faults).wp (f answer) Q phases') :
    (evpEnv scheme faults).wp (Prog.ask (A := Evp) call >>= f) Q phases := by
  rw [Env.wp_bind]
  exact wp_other hctx fun answer phases' _ => h answer phases'

theorem toNat_le_withTag {n : UInt64} (h : ¬ n > intMax) : n.toNat ≤ (n + 16).toNat := by
  have hmax : intMax.toNat = 2147483647 := rfl
  have htag : (16 : UInt64).toNat = 16 := rfl
  rw [gt_iff_lt, UInt64.lt_iff_toNat_lt, hmax] at h
  rw [UInt64.toNat_add, htag]
  omega

theorem wp_allocate {self : Ptr} {params : Params} {Q : Backend → (Ptr → Phase) → Prop}
    (hmax : ¬ params.messageSize > intMax)
    (hQ : ∀ state phases', Allocated params state → Q state phases') :
    (evpEnv scheme faults).wp (allocate self params) Q phases := by
  refine wp_other_any rfl fun ctx phases₁ => wp_other_any rfl fun aad phases₂ =>
    wp_other_any rfl fun plaintext phases₃ => wp_other_any rfl fun ciphertext phases₄ =>
    wp_other_any rfl fun output phases₅ =>
    hQ _ phases₅ ⟨⟨rfl, rfl, rfl, rfl⟩, fun h => ?_, fun h => ?_, fun h => ?_⟩
  · exact buffer_room h
  · exact (length_of_buffer h).symm ▸ toNat_le_withTag hmax
  · exact (length_of_buffer h).symm ▸ toNat_le_withTag hmax

theorem wp_ofbBackendDestroy {state : Backend} {Q : Unit → (Ptr → Phase) → Prop}
    (hQ : ∀ phases', Q () phases') :
    (evpEnv scheme faults).wp (ofbBackendDestroy (some state)) Q phases :=
  wp_other_any rfl fun _ _ => wp_other_any rfl fun _ _ => wp_other_any rfl fun _ _ =>
    wp_other_any rfl fun _ _ => wp_other_any rfl fun _ _ =>
      wp_other rfl fun _ phases' _ => hQ phases'

section FillInputs

variable (state : Backend) (params : Params)

@[simp] theorem fillInputs_cipher : (state.fillInputs params).cipher = state.cipher := by
  simp only [Backend.fillInputs]

@[simp] theorem fillInputs_ctx : (state.fillInputs params).ctx = state.ctx := by
  simp only [Backend.fillInputs]

@[simp] theorem fillInputs_operation : (state.fillInputs params).operation = state.operation := by
  simp only [Backend.fillInputs]

@[simp] theorem fillInputs_messageSize :
    (state.fillInputs params).messageSize = state.messageSize := by
  simp only [Backend.fillInputs]

@[simp] theorem fillInputs_aadSize : (state.fillInputs params).aadSize = state.aadSize := by
  simp only [Backend.fillInputs]

@[simp] theorem fillInputs_ciphertext :
    (state.fillInputs params).ciphertext = state.ciphertext := by
  simp only [Backend.fillInputs]

@[simp] theorem fillInputs_output : (state.fillInputs params).output = state.output := by
  simp only [Backend.fillInputs]

@[simp] theorem fillInputs_plaintext_ptr :
    (state.fillInputs params).plaintext.ptr = state.plaintext.ptr := by
  simp only [Backend.fillInputs]

@[simp] theorem fillInputs_plaintext_length :
    (state.fillInputs params).plaintext.bytes.length = state.plaintext.bytes.length := by
  simp only [Backend.fillInputs, length_fill]

end FillInputs

theorem Allocated.fillInputs {params : Params} {state : Backend} (h : Allocated params state) :
    Allocated params (state.fillInputs params) := by
  obtain ⟨⟨hc, ho, hm, ha⟩, hplain, hct, hout⟩ := h
  refine ⟨⟨?_, ?_, ?_, ?_⟩, ?_, ?_, ?_⟩
  · rw [fillInputs_cipher, hc]
  · rw [fillInputs_operation, ho]
  · rw [fillInputs_messageSize, hm]
  · rw [fillInputs_aadSize, ha]
  · rw [fillInputs_plaintext_ptr, fillInputs_plaintext_length]
    exact hplain
  · rw [fillInputs_ciphertext]
    exact hct
  · rw [fillInputs_output]
    exact hout

/-- A backend with all that `create` encrypts its plaintext with. -/
structure Filled (params : Params) (cipher : Cipher) (state : Backend) : Prop where
  allocated : Allocated params state
  cipher : state.cipher = some cipher
  ctx : state.ctx ≠ none
  plaintext : state.plaintext.ptr ≠ none
  ciphertext : state.ciphertext.ptr ≠ none
  output : state.output.ptr ≠ none

theorem Allocated.filled {params : Params} {state : Backend} (h : Allocated params state)
    (hcipher : state.cipher ≠ none) (hctx : state.ctx ≠ none) (hplain : state.plaintext.ptr ≠ none)
    (hct : state.ciphertext.ptr ≠ none) (hout : state.output.ptr ≠ none) :
    ∃ cipher, Filled params cipher (state.fillInputs params) := by
  obtain ⟨cipher, hc⟩ := Option.ne_none_iff_exists'.1 hcipher
  refine ⟨cipher, h.fillInputs, ?_, ?_, ?_, ?_, ?_⟩
  · rw [fillInputs_cipher, hc]
  · rwa [fillInputs_ctx]
  · rwa [fillInputs_plaintext_ptr]
  · rwa [fillInputs_ciphertext]
  · rwa [fillInputs_output]

theorem Filled.room {params : Params} {cipher : Cipher} {state : Backend}
    (h : Filled params cipher state) :
    state.message.length ≤ state.ciphertext.bytes.length := by
  unfold Backend.message
  rw [List.length_take, h.allocated.made.messageSize]
  exact (min_le_left _ _).trans (h.allocated.ciphertext h.ciphertext)

/-- `state` with the ciphertext and tag of its plaintext is a fixture. -/
theorem Filled.fixture {params : Params} {cipher : Cipher} {state : Backend} {out : List UInt8}
    (h : Filled params cipher state)
    (htake : out.take state.message.length = (state.enc scheme cipher).1) :
    Fixture scheme { state with
      ciphertext := ⟨state.ciphertext.ptr, out⟩, tag := (state.enc scheme cipher).2 } cipher := by
  have hsize : state.messageSize.toNat ≤ state.plaintext.bytes.length := by
    rw [h.allocated.made.messageSize]
    exact h.allocated.plaintext h.plaintext
  refine ⟨h.cipher, ?_, h.ctx, hsize, ?_⟩
  · rw [length_message hsize] at htake
    exact Prod.ext htake.symm rfl
  · rw [h.allocated.made.messageSize]
    exact h.allocated.output h.output

theorem wp_setUp {self : Ptr} {params : Params} {cell : Option Cell}
    {Q : Int × Option Cell → (Ptr → Phase) → Prop} (hmax : ¬ params.messageSize > intMax)
    (hok : ∀ state cipher phases', MadeFor params state → Fixture scheme state cipher →
      Q (0, some (some state)) phases') (hfail : ∀ phases', Q (-1, cell) phases') :
    (evpEnv scheme faults).wp (setUp self params cell) Q phases := by
  unfold setUp
  rw [Env.wp_bind]
  refine wp_allocate hmax fun state phases₁ ha => ?_
  by_cases hnull : state.cipher = none ∨ state.ctx = none ∨ state.aad.ptr = none
      ∨ state.plaintext.ptr = none ∨ state.ciphertext.ptr = none ∨ state.output.ptr = none
  · rw [if_pos hnull, Env.wp_bind]
    exact wp_ofbBackendDestroy hfail
  rw [if_neg hnull]
  simp only [not_or] at hnull
  obtain ⟨hcipher, hctx, -, hplain, hct, hout⟩ := hnull
  obtain ⟨cipher, hfilled⟩ := ha.filled hcipher hctx hplain hct hout
  generalize state.fillInputs params = filled at hfilled
  rw [Env.wp_bind]
  refine wp_encryptOnce hfilled.cipher hfilled.room (fun out phases₂ _ htake => ?_)
    fun _ out phases₂ _ => ?_
  · obtain ⟨hc, ho, hm, ha⟩ := hfilled.allocated.made
    exact hok _ cipher phases₂ ⟨hc, ho, hm, ha⟩ (hfilled.fixture htake)
  · simp only [ne_eq, reduceCtorEq, not_false_eq_true, if_true, Int.reduceNeg]
    rw [Env.wp_bind]
    exact wp_ofbBackendDestroy hfail

theorem wp_ofbBackendCreate {params : Params} {cell : Cell}
    {Q : Int × Option Cell → (Ptr → Phase) → Prop}
    (hok : ∀ state cipher phases', MadeFor params state → Fixture scheme state cipher →
      Q (0, some (some state)) phases') (hfail : ∀ phases', Q (-1, some cell) phases') :
    (evpEnv scheme faults).wp (ofbBackendCreate (some params) (some cell)) Q phases := by
  unfold ofbBackendCreate
  simp only
  by_cases hmax : params.messageSize > intMax ∨ params.aadSize > intMax
  · rw [if_pos hmax]
    exact hfail phases
  rw [if_neg hmax]
  refine wp_other_any rfl fun self phases₁ => ?_
  rcases self with _ | self
  · exact hfail phases₁
  · exact wp_setUp (fun h => hmax (.inl h)) hok hfail

end Create

/-- A backend that `create` made, with any failures, has the ciphertext and tag of its plaintext; so
it has after any calls, with any failures, and they changed nothing but its output bytes and its
checksum. A call after these in which nothing fails, and there is one, returns 0. -/
theorem fixture_kept (scheme : Scheme) (params : Params) (cell : Cell) {t : Trace Evp}
    {state : Backend} {phases₀ phases : Ptr → Phase}
    (hrun : (ofbBackendCreate (some params) (some cell)).Runs t (0, some (some state)))
    (hpath : (evpEnv scheme True).Path phases₀ t phases) :
    ∃ cipher, MadeFor params state ∧ Fixture scheme state cipher
      ∧ ∀ uses t' rcs state' phases', (useAll state uses).Runs t' (rcs, state') →
        (evpEnv scheme True).Path phases t' phases' →
        Kept state state' ∧ Fixture scheme state' cipher
        ∧ ∀ use : Use, (∃ t'' out phases'', (use.run state').Runs t'' out
            ∧ (evpEnv scheme False).Path phases' t'' phases'')
          ∧ ∀ t'' rc state'' phases'', (use.run state').Runs t'' (rc, state'') →
            (evpEnv scheme False).Path phases' t'' phases'' → rc = 0 := by
  have hcreate : (evpEnv scheme True).wp (ofbBackendCreate (some params) (some cell))
      (fun out _ => ∀ state, out = (0, some (some state)) →
        ∃ cipher, MadeFor params state ∧ Fixture scheme state cipher) phases₀ := by
    refine wp_ofbBackendCreate (fun state cipher phases' hm hf state' h => ?_)
      fun phases' state' h => ?_
    · simp only [Prod.mk.injEq, Option.some.injEq, true_and] at h
      exact ⟨cipher, h ▸ hm, h ▸ hf⟩
    · simp at h
  obtain ⟨cipher, hm, hf⟩ := Env.wp_sound _ hcreate hrun hpath state rfl
  refine ⟨cipher, hm, hf, fun uses t' rcs state' phases' hrun' hpath' => ?_⟩
  have huses : (evpEnv scheme True).wp (useAll state uses) (fun out _ => Kept state out.2) phases :=
    wp_useAll uses hf fun _ _ _ hk => hk
  have hk := Env.wp_sound _ huses hrun' hpath'
  refine ⟨hk, hk.fixture hf, fun use => ?_⟩
  have huse : (evpEnv scheme False).wp (use.run state') (fun out _ => out.1 = 0) phases' :=
    wp_use use (hk.fixture hf) (fun _ _ _ => rfl) fun h => h.elim
  refine ⟨Env.wp_exists_run _ huse evpEnv_answers, ?_⟩
  intro t'' rc state'' phases'' hrun'' hpath''
  have hrc := Env.wp_sound _ huse hrun'' hpath''
  exact hrc

/-! ## A working library -/

section Working

variable (scheme : Scheme)

/-- What a library without faults keeps: the next address to hand out, and its contexts. -/
structure Working where
  next : ℕ
  phases : Ptr → Phase

def Working.enter (lib : Working) (ctx : Ptr) (phase : Phase) : Working :=
  { lib with phases := Function.update lib.phases ctx phase }

def Working.alloc (lib : Working) : Option Ptr × Working :=
  (some lib.next, { lib with next := lib.next + 1 })

/-- The answer to a data call: as much of the output as there is room for. -/
def Scheme.written (room : ℕ) (direction : Direction) (session : Session) : Written room :=
  ⟨1, session.input.length, (scheme.output direction session).take room,
    (List.length_take_le _ _)⟩

def nothing (room : ℕ) (result : Int) : Written room := ⟨result, 0, [], Nat.zero_le _⟩

/-- A library without faults; it answers 0 to what its contexts do not allow. -/
def workingLibrary (lib : Working) : (call : Evp.Call) → Evp.Resp call × Working
  | .callocState => lib.alloc
  | .calloc _ => lib.alloc
  | .malloc size => (some (.zeros size.toNat lib.next), { lib with next := lib.next + 1 })
  | .memFree _ => ((), lib)
  | .ctxNew => lib.alloc
  | .ctxFree _ => ((), lib)
  | .initCipher direction (some ctx) (some cipher) =>
    ((1 : Int), lib.enter ctx (.cipherSet direction cipher))
  | .setIvLen (some ctx) _ =>
    match lib.phases ctx with
    | .cipherSet direction cipher => ((1 : Int), lib.enter ctx (.ivLenSet direction cipher))
    | _ => ((0 : Int), lib)
  | .initKey _ (some ctx) key nonce =>
    match lib.phases ctx with
    | .ivLenSet direction cipher => ((1 : Int), lib.enter ctx (.keySet direction cipher key nonce))
    | _ => ((0 : Int), lib)
  | .updateAad _ (some ctx) aad =>
    match lib.phases ctx with
    | .keySet direction cipher key nonce =>
      ((1 : Int), lib.enter ctx (.aadGiven direction cipher key nonce aad))
    | _ => ((0 : Int), lib)
  | .update _ (some ctx) room input =>
    match lib.phases ctx with
    | .aadGiven direction cipher key nonce aad =>
      (scheme.written room direction ⟨cipher, key, nonce, aad, input⟩,
        lib.enter ctx (.dataGiven direction ⟨cipher, key, nonce, aad, input⟩))
    | _ => (nothing room 0, lib)
  | .final _ (some ctx) room =>
    match lib.phases ctx with
    | .dataGiven _ session => (nothing room 1, lib.enter ctx (.finished session))
    | .tagSet session tag =>
      if (scheme.dec session.cipher session.key session.nonce session.aad session.input tag).isSome
      then (nothing room 1, lib.enter ctx (.finished session))
      else (nothing room 0, lib.enter ctx .unknown)
    | _ => (nothing room 0, lib)
  | .getTag (some ctx) tag =>
    match lib.phases ctx with
    | .finished session => (⟨1, (scheme.enc session.cipher session.key session.nonce session.aad
        session.input).2⟩, lib)
    | _ => (⟨0, tag⟩, lib)
  | .setTag (some ctx) tag =>
    match lib.phases ctx with
    | .dataGiven _ session => ((1 : Int), lib.enter ctx (.tagSet session tag))
    | _ => ((0 : Int), lib)
  | .initCipher _ _ _ => ((0 : Int), lib)
  | .setIvLen none _ => ((0 : Int), lib)
  | .initKey _ none _ _ => ((0 : Int), lib)
  | .updateAad _ none _ => ((0 : Int), lib)
  | .update _ none room _ => (nothing room 0, lib)
  | .final _ none room => (nothing room 0, lib)
  | .getTag none tag => (⟨0, tag⟩, lib)
  | .setTag none _ => ((0 : Int), lib)

theorem Scheme.written_data {room : ℕ} {direction : Direction} {session : Session}
    (h : (scheme.output direction session).length ≤ room) :
    (scheme.written room direction session).data = scheme.output direction session :=
  List.take_of_length_le h

variable {scheme}

theorem workingLibrary_step (faults : Prop) (lib : Working) (call : Evp.Call) :
    (evpEnv scheme faults).step lib.phases call (workingLibrary scheme lib call).1
      (workingLibrary scheme lib call).2.phases := by
  rcases hctx : contextOf call with _ | _ | ctx
  · simp only [evpEnv, hctx]
    cases call <;> simp_all [contextOf, Fails, workingLibrary, Working.alloc]
  · simp only [evpEnv, hctx]
  · simp only [evpEnv, hctx]
    rintro ⟨answer, phase', hs⟩
    left
    generalize hphase : lib.phases ctx = phase at hs
    cases hs with
    | initCipher =>
      cases hctx
      simp only [workingLibrary, Working.enter, Function.update_self]
      exact .initCipher
    | setIvLen =>
      cases hctx
      simp only [workingLibrary, Working.enter, hphase, Function.update_self]
      exact .setIvLen
    | initKey =>
      cases hctx
      simp only [workingLibrary, Working.enter, hphase, Function.update_self]
      exact .initKey
    | updateAad =>
      cases hctx
      simp only [workingLibrary, Working.enter, hphase, Function.update_self]
      exact .updateAad
    | @update _ _ _ _ _ _ _ _ answer result len data =>
      cases hctx
      simp only [workingLibrary, Working.enter, hphase, Function.update_self]
      exact .update rfl rfl (Scheme.written_data scheme (data ▸ answer.length_data))
    | finalEncrypt result data =>
      cases hctx
      simp only [workingLibrary, Working.enter, hphase, Function.update_self]
      exact .finalEncrypt rfl rfl
    | getTag result written =>
      cases hctx
      simp only [workingLibrary, hphase]
      exact .getTag rfl rfl
    | setTag =>
      cases hctx
      simp only [workingLibrary, Working.enter, hphase, Function.update_self]
      exact .setTag
    | finalDecrypt accepted result data =>
      cases hctx
      simp only [workingLibrary, Working.enter, hphase, if_pos accepted, Function.update_self]
      exact .finalDecrypt accepted rfl rfl
    | reject rejected result =>
      cases hctx
      simp only [workingLibrary, Working.enter, hphase, rejected, Option.isSome_none,
        Bool.false_eq_true, if_false, Function.update_self]
      exact .reject rejected (by simp [nothing])

end Working

/-- The key stream and tag of AES-128-GCM for the key and nonce of `create`, no AAD and the two
bytes of plaintext it writes. -/
def twoByteScheme : Scheme where
  enc _ _ _ _ p := (p.mapIdx fun i b => b ^^^ [2, 3].getD i 0,
    [54, 218, 182, 27, 173, 243, 179, 248, 250, 203, 104, 9, 221, 46, 55, 58])
  decrypt _ _ _ _ c := c.mapIdx fun i b => b ^^^ [2, 3].getD i 0
  decrypt_enc _ _ _ _ p := by
    rw [List.mapIdx_mapIdx]
    exact List.ext_getElem (by simp) (by simp)
  length_enc _ _ _ _ p := List.length_mapIdx

def twoByteParams : Params := ⟨"AES-128-GCM", .seal, 2, 0⟩

/-- The backend `create` makes of `twoByteParams` with the working library. -/
def twoByteBackend : Backend where
  self := 0
  cipher := some .aes128Gcm
  ctx := some 1
  operation := .seal
  key := [1, 2, 3, 4, 5, 6, 7, 8, 9, 10, 11, 12, 13, 14, 15, 16, 17, 18, 19, 20, 21, 22, 23, 24, 25,
    26, 27, 28, 29, 30, 31, 32]
  nonce := [160, 161, 162, 163, 164, 165, 166, 167, 168, 169, 170, 171]
  tag := [54, 218, 182, 27, 173, 243, 179, 248, 250, 203, 104, 9, 221, 46, 55, 58]
  aad := ⟨some 2, [0]⟩
  plaintext := ⟨some 3, [7, 38]⟩
  ciphertext := ⟨some 4, [5, 37, 0, 0, 0, 0, 0, 0, 0, 0, 0, 0, 0, 0, 0, 0, 0, 0]⟩
  output := ⟨some 5, List.replicate 18 0⟩
  aadSize := 0
  messageSize := 2
  checksum := 0

def twoByteCreate : Trace Evp × (Int × Option Cell) × Working :=
  (ofbBackendCreate (some twoByteParams) (some none)).run (workingLibrary twoByteScheme)
    ⟨0, fun _ => .unknown⟩

/-- A library whose data calls fail as the list says, with the output buffer overwritten. -/
def faultyLibrary (lib : Working × List Bool) :
    (call : Evp.Call) → Evp.Resp call × (Working × List Bool)
  | .update direction ctx room input =>
    if lib.2.head? = some true then
      (⟨0, 0, List.replicate room 255, (List.length_replicate ..).le⟩, lib.1, lib.2.tail)
    else
      let (answer, lib') := workingLibrary twoByteScheme lib.1 (.update direction ctx room input)
      (answer, lib', lib.2.tail)
  | call =>
    let (answer, lib') := workingLibrary twoByteScheme lib.1 call
    (answer, lib', lib.2)

theorem step_of_fails {scheme : Scheme} {phases phases' : Ptr → Phase} {call : Evp.Call}
    {answer : Evp.Resp call} (h : Fails call answer) :
    (evpEnv scheme True).step phases call answer phases' := by
  rcases hctx : contextOf call with _ | _ | ctx
  · simp only [evpEnv, hctx]
    exact fun _ => trivial
  · simp only [evpEnv, hctx]
  · simp only [evpEnv, hctx]
    exact fun _ => .inr ⟨trivial, h⟩

theorem faultyLibrary_step (lib : Working × List Bool) (call : Evp.Call) :
    (evpEnv twoByteScheme True).step lib.1.phases call (faultyLibrary lib call).1
      (faultyLibrary lib call).2.1.phases := by
  cases call with
  | update direction ctx room input =>
    unfold faultyLibrary
    simp only
    split_ifs with hfault
    · exact step_of_fails (by simp [Fails])
    · exact workingLibrary_step True lib.1 _
  | _ => exact workingLibrary_step True lib.1 _

/-- A verification, a batch whose second encryption fails, and one in which nothing fails. -/
def twoByteUses : List Use := [.verify [], .runBatch 3, .runBatch 1]

def twoByteUse : Trace Evp × (List Int × Backend) × (Working × List Bool) :=
  (useAll twoByteBackend twoByteUses).run faultyLibrary
    (twoByteCreate.2.2, [false, false, false, true])

theorem fixture_kept_twoBytes :
    Kept twoByteBackend twoByteUse.2.1.2 ∧ twoByteUse.2.1.1 = [0, -1, 0]
      ∧ (∃ cipher, Fixture twoByteScheme twoByteUse.2.1.2 cipher)
      ∧ ∃ t out, ((Use.verify []).run twoByteUse.2.1.2).Runs t out ∧ out.1 = 0 := by
  have hcreate : (ofbBackendCreate (some twoByteParams) (some none)).Runs twoByteCreate.1
      (0, some (some twoByteBackend)) := by
    have hout : twoByteCreate.2.1 = (0, some (some twoByteBackend)) := by decide
    rw [← hout]
    exact Prog.runs_run _ _ _
  have huse : (useAll twoByteBackend twoByteUses).Runs twoByteUse.1
      (twoByteUse.2.1.1, twoByteUse.2.1.2) := Prog.runs_run _ _ _
  obtain ⟨cipher, -, -, hall⟩ := fixture_kept twoByteScheme twoByteParams none hcreate
    (Env.path_run _ (workingLibrary_step True)
      (ofbBackendCreate (some twoByteParams) (some none)) ⟨0, fun _ => .unknown⟩)
  obtain ⟨hkept, hfixture, hnext⟩ := hall _ _ _ _ _ huse
    (Env.path_run _ faultyLibrary_step (useAll twoByteBackend twoByteUses)
      (twoByteCreate.2.2, [false, false, false, true]))
  obtain ⟨⟨t, ⟨rc, state⟩, phases, hrun, hpath⟩, hzero⟩ := hnext (.verify [])
  exact ⟨hkept, by decide +kernel, ⟨cipher, hfixture⟩, t, (rc, state), hrun,
    hzero t rc state phases hrun hpath⟩

end OfbBench.Aead
