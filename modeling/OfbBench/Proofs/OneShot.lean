import OfbBench.Proofs.Fixture

/-!
# The timed path agrees with the one-shot path

The library is a deterministic machine on the contexts (`Machine`): a context initialised with a
cipher is reset, and every other call is a function of the context and its arguments. Then the calls
of an encryption compute `Machine.seal`, and those of a decryption `Machine.unseal`, whatever the
context was before (`wp_encryptWith_machine`, `wp_decryptWith_machine`). So an iteration of a batch
on the reused context and a call with a fresh one have the same outcome.
-/

namespace OfbBench.Aead

/-- The library as a machine on a context: each call has the next context and its return value. -/
structure Machine where
  Ctx : Type
  initCipher : Direction → Cipher → Ctx × Int
  setIvLen : Ctx → ℕ → Ctx × Int
  initKey : Direction → Ctx → (key nonce : List UInt8) → Ctx × Int
  updateAad : Direction → Ctx → List UInt8 → Ctx × Int
  update : Direction → Ctx → List UInt8 → (Ctx × List UInt8) × Int
  final : Direction → Ctx → Ctx × Int
  getTag : Ctx → (Ctx × List UInt8) × Int
  setTag : Ctx → List UInt8 → Ctx × Int
  length_update : ∀ direction ctx input, (update direction ctx input).2 = 1 →
    (update direction ctx input).1.2.length = input.length

/-- The result of a call, if its return value is 1. -/
def accept {α : Type} (answer : α × Int) : Option α := if answer.2 = 1 then some answer.1 else none

/-- The machine answers a call; a fresh context can be allocated and may hold anything. A call that
fails may have written anything, and a successful final call writes nothing. -/
def machineEnv (m : Machine) : Env Evp (Ptr → m.Ctx) where
  pre _ call :=
    match call with
    | .update _ ctx room input => ctx ≠ none ∧ input.length ≤ room
    | call => contextOf call ≠ some none
  step ctxs call answer ctxs' :=
    match call, answer with
    | .ctxNew, answer => answer ≠ none
    | .initCipher direction (some ctx) (some cipher), rc =>
      (ctxs' ctx, rc) = m.initCipher direction cipher
    | .setIvLen (some ctx) len, rc => (ctxs' ctx, rc) = m.setIvLen (ctxs ctx) len
    | .initKey direction (some ctx) key nonce, rc =>
      (ctxs' ctx, rc) = m.initKey direction (ctxs ctx) key nonce
    | .updateAad direction (some ctx) aad, rc =>
      (ctxs' ctx, rc) = m.updateAad direction (ctxs ctx) aad
    | .update direction (some ctx) _ input, answer =>
      answer.result = (m.update direction (ctxs ctx) input).2
        ∧ (answer.result = 1 → answer.len = input.length
          ∧ (ctxs' ctx, answer.data) = (m.update direction (ctxs ctx) input).1)
    | .final direction (some ctx) _, answer =>
      (ctxs' ctx, answer.result) = m.final direction (ctxs ctx)
        ∧ (answer.result = 1 → answer.data = [])
    | .getTag (some ctx) _, answer =>
      answer.result = (m.getTag (ctxs ctx)).2
        ∧ (answer.result = 1 → (ctxs' ctx, answer.tag) = (m.getTag (ctxs ctx)).1)
    | .setTag (some ctx) tag, rc => (ctxs' ctx, rc) = m.setTag (ctxs ctx) tag
    | _, _ => True

/-! ## What the calls compute -/

section Pure

variable (m : Machine) (cipher : Cipher) (state : Backend)

/-- The context after the calls up to the data. -/
def Machine.started (direction : Direction) : Option m.Ctx := do
  let ctx ← accept (m.initCipher direction cipher)
  let ctx ← accept (m.setIvLen ctx nonceSize)
  let ctx ← accept (m.initKey direction ctx state.key state.nonce)
  accept (m.updateAad direction ctx state.aadBytes)

/-- The ciphertext and tag of the plaintext of a backend. -/
def Machine.seal : Option (List UInt8 × List UInt8) := do
  let ctx ← m.started cipher state .encrypt
  let (ctx, ciphertext) ← accept (m.update .encrypt ctx state.message)
  let ctx ← accept (m.final .encrypt ctx)
  let (_, tag) ← accept (m.getTag ctx)
  pure (ciphertext, tag)

/-- The plaintext of the stored ciphertext and tag of a backend. -/
def Machine.unseal : Option (List UInt8) := do
  let ctx ← m.started cipher state .decrypt
  let (ctx, plaintext) ← accept (m.update .decrypt ctx state.sealed)
  let ctx ← accept (m.setTag ctx state.tag)
  let _ ← accept (m.final .decrypt ctx)
  pure plaintext

end Pure

/-- A backend as `create` makes them: it has a cipher and a context, and its buffers hold a message.
-/
structure Usable (state : Backend) (cipher : Cipher) : Prop where
  known : state.cipher = some cipher
  ctx : state.ctx ≠ none
  plaintext : state.messageSize.toNat ≤ state.plaintext.bytes.length
  ciphertext : state.messageSize.toNat ≤ state.ciphertext.bytes.length
  output : state.messageSize.toNat ≤ state.output.bytes.length

/-- The backends `create` makes are usable, and every call keeps them so (`wp_use`). -/
theorem Fixture.usable {scheme : Scheme} {state : Backend} {cipher : Cipher}
    (h : Fixture scheme state cipher) : Usable state cipher := by
  have hlen : state.sealed.length = state.message.length := by
    rw [← scheme.length_enc cipher state.key state.nonce state.aadBytes state.message]
    exact congrArg (fun out => out.1.length) h.authentic.symm
  rw [length_message h.plaintext] at hlen
  unfold Backend.sealed at hlen
  rw [List.length_take] at hlen
  exact ⟨h.known, h.ctx, h.plaintext, by omega, h.output⟩

section Calls

variable {m : Machine} {ctxs : Ptr → m.Ctx} {ctx : Ptr} {direction : Direction}

theorem accept_of_ne {α : Type} {answer : α × Int} (h : answer.2 ≠ 1) : accept answer = none :=
  if_neg h

/-- The return value of a call that has the answer `answer`. -/
theorem accept_cases {α : Type} {a : α} {rc : Int} {answer : α × Int} {Q : Int → Prop}
    (h : (a, rc) = answer) (hok : accept answer = some a → Q 1)
    (hfail : accept answer = none → rc ≠ 1 → Q rc) : Q rc := by
  subst h
  by_cases hrc : rc = 1
  · subst hrc
    exact hok rfl
  · exact hfail (accept_of_ne hrc) hrc

theorem wp_initCipher {cipher : Cipher} {Q : Int → (Ptr → m.Ctx) → Prop}
    (hok : ∀ ctxs', accept (m.initCipher direction cipher) = some (ctxs' ctx) → Q 1 ctxs')
    (hfail : accept (m.initCipher direction cipher) = none → ∀ rc ctxs', rc ≠ 1 → Q rc ctxs') :
    (machineEnv m).wp (evpInitCipher direction (some ctx) (some cipher)) Q ctxs :=
  ⟨by simp [machineEnv, contextOf], fun rc ctxs' hs =>
    accept_cases (Q := fun rc => Q rc ctxs') hs (hok ctxs') fun hn => hfail hn rc ctxs'⟩

theorem wp_setIvLen {len : ℕ} {Q : Int → (Ptr → m.Ctx) → Prop}
    (hok : ∀ ctxs', accept (m.setIvLen (ctxs ctx) len) = some (ctxs' ctx) → Q 1 ctxs')
    (hfail : accept (m.setIvLen (ctxs ctx) len) = none → ∀ rc ctxs', rc ≠ 1 → Q rc ctxs') :
    (machineEnv m).wp (evpSetIvLen (some ctx) len) Q ctxs :=
  ⟨by simp [machineEnv, contextOf], fun rc ctxs' hs =>
    accept_cases (Q := fun rc => Q rc ctxs') hs (hok ctxs') fun hn => hfail hn rc ctxs'⟩

theorem wp_initKey {key nonce : List UInt8} {Q : Int → (Ptr → m.Ctx) → Prop}
    (hok : ∀ ctxs', accept (m.initKey direction (ctxs ctx) key nonce) = some (ctxs' ctx) →
      Q 1 ctxs')
    (hfail : accept (m.initKey direction (ctxs ctx) key nonce) = none → ∀ rc ctxs', rc ≠ 1 →
      Q rc ctxs') :
    (machineEnv m).wp (evpInitKey direction (some ctx) key nonce) Q ctxs :=
  ⟨by simp [machineEnv, contextOf], fun rc ctxs' hs =>
    accept_cases (Q := fun rc => Q rc ctxs') hs (hok ctxs') fun hn => hfail hn rc ctxs'⟩

theorem wp_updateAad {aad : List UInt8} {Q : Int → (Ptr → m.Ctx) → Prop}
    (hok : ∀ ctxs', accept (m.updateAad direction (ctxs ctx) aad) = some (ctxs' ctx) → Q 1 ctxs')
    (hfail : accept (m.updateAad direction (ctxs ctx) aad) = none → ∀ rc ctxs', rc ≠ 1 →
      Q rc ctxs') :
    (machineEnv m).wp (evpUpdateAad direction (some ctx) aad) Q ctxs :=
  ⟨by simp [machineEnv, contextOf], fun rc ctxs' hs =>
    accept_cases (Q := fun rc => Q rc ctxs') hs (hok ctxs') fun hn => hfail hn rc ctxs'⟩

theorem wp_setTag {tag : List UInt8} {Q : Int → (Ptr → m.Ctx) → Prop}
    (hok : ∀ ctxs', accept (m.setTag (ctxs ctx) tag) = some (ctxs' ctx) → Q 1 ctxs')
    (hfail : accept (m.setTag (ctxs ctx) tag) = none → ∀ rc ctxs', rc ≠ 1 → Q rc ctxs') :
    (machineEnv m).wp (evpSetTag (some ctx) tag) Q ctxs :=
  ⟨by simp [machineEnv, contextOf], fun rc ctxs' hs =>
    accept_cases (Q := fun rc => Q rc ctxs') hs (hok ctxs') fun hn => hfail hn rc ctxs'⟩

/-- The data call, into a buffer that has room for the data. -/
theorem wp_update {room : ℕ} {input : List UInt8} {Q : Written room → (Ptr → m.Ctx) → Prop}
    (hroom : input.length ≤ room)
    (hok : ∀ answer ctxs', answer.result = 1 → answer.len = input.length →
      answer.data.length = input.length →
      accept (m.update direction (ctxs ctx) input) = some (ctxs' ctx, answer.data) →
      Q answer ctxs')
    (hfail : accept (m.update direction (ctxs ctx) input) = none → ∀ answer ctxs',
      answer.result ≠ 1 → Q answer ctxs') :
    (machineEnv m).wp (evpUpdate direction (some ctx) room input) Q ctxs := by
  refine ⟨⟨by simp, hroom⟩, fun answer ctxs' hs => ?_⟩
  obtain ⟨hresult, hwritten⟩ : answer.result = (m.update direction (ctxs ctx) input).2
      ∧ (answer.result = 1 → answer.len = input.length
        ∧ (ctxs' ctx, answer.data) = (m.update direction (ctxs ctx) input).1) := hs
  by_cases h1 : answer.result = 1
  · obtain ⟨hlen, hdata⟩ := hwritten h1
    have h1' := hresult.symm.trans h1
    refine hok answer ctxs' h1 hlen ?_ ?_
    · rw [← m.length_update direction (ctxs ctx) input h1', ← hdata]
    · unfold accept
      rw [if_pos h1', hdata]
  · exact hfail (accept_of_ne (hresult ▸ h1)) answer ctxs' h1

theorem wp_final {room : ℕ} {Q : Written room → (Ptr → m.Ctx) → Prop}
    (hok : ∀ answer ctxs', answer.result = 1 → answer.data = [] →
      accept (m.final direction (ctxs ctx)) = some (ctxs' ctx) → Q answer ctxs')
    (hfail : accept (m.final direction (ctxs ctx)) = none → ∀ answer ctxs', answer.result ≠ 1 →
      Q answer ctxs') :
    (machineEnv m).wp (evpFinal direction (some ctx) room) Q ctxs := by
  refine ⟨by simp [machineEnv, contextOf], fun answer ctxs' hs => ?_⟩
  obtain ⟨hanswer, hdata⟩ : (ctxs' ctx, answer.result) = m.final direction (ctxs ctx)
      ∧ (answer.result = 1 → answer.data = []) := hs
  by_cases h1 : answer.result = 1
  · refine hok answer ctxs' h1 (hdata h1) ?_
    rw [← hanswer, h1]
    rfl
  · refine hfail ?_ answer ctxs' h1
    rw [← hanswer]
    exact accept_of_ne h1

theorem wp_getTag {tag : List UInt8} {Q : TagAnswer → (Ptr → m.Ctx) → Prop}
    (hok : ∀ answer ctxs', answer.result = 1 →
      accept (m.getTag (ctxs ctx)) = some (ctxs' ctx, answer.tag) → Q answer ctxs')
    (hfail : accept (m.getTag (ctxs ctx)) = none → ∀ answer ctxs', answer.result ≠ 1 →
      Q answer ctxs') :
    (machineEnv m).wp (evpGetTag (some ctx) tag) Q ctxs := by
  refine ⟨by simp [machineEnv, contextOf], fun answer ctxs' hs => ?_⟩
  obtain ⟨hresult, hwritten⟩ : answer.result = (m.getTag (ctxs ctx)).2
      ∧ (answer.result = 1 → (ctxs' ctx, answer.tag) = (m.getTag (ctxs ctx)).1) := hs
  by_cases h1 : answer.result = 1
  · refine hok answer ctxs' h1 ?_
    unfold accept
    rw [if_pos (hresult.symm.trans h1), hwritten h1]
  · exact hfail (accept_of_ne (hresult ▸ h1)) answer ctxs' h1

/-- A fresh context may hold anything. -/
theorem wp_ctxNew {Q : Option Ptr → (Ptr → m.Ctx) → Prop}
    (hok : ∀ ctx ctxs', Q (some ctx) ctxs') : (machineEnv m).wp evpCtxNew Q ctxs := by
  refine ⟨by simp [machineEnv, contextOf], fun fresh ctxs' hs => ?_⟩
  obtain ⟨ctx, rfl⟩ := Option.ne_none_iff_exists'.1 (show fresh ≠ none from hs)
  exact hok ctx ctxs'

theorem wp_ctxFree {freed : Option Ptr} {Q : Unit → (Ptr → m.Ctx) → Prop}
    (hQ : ∀ ctxs', Q () ctxs') : (machineEnv m).wp (evpCtxFree freed) Q ctxs :=
  ⟨by simp [machineEnv, contextOf], fun _ ctxs' _ => hQ ctxs'⟩

/-- A machine's answer, as a context map and a return value. -/
theorem exists_answer (ctxs : Ptr → m.Ctx) (ctx : Ptr) (answer : m.Ctx × Int) :
    ∃ (rc : Int) (ctxs' : Ptr → m.Ctx), (ctxs' ctx, rc) = answer :=
  ⟨answer.2, Function.update ctxs ctx answer.1, by rw [Function.update_self]⟩

/-- Every call the code makes is answered. -/
theorem machineEnv_answers (call : Evp.Call) (h : (machineEnv m).pre ctxs call) :
    ∃ answer ctxs', (machineEnv m).step ctxs call answer ctxs' := by
  cases call with
  | ctxNew => exact ⟨some 0, ctxs, by simp [machineEnv]⟩
  | initCipher direction ctx cipher =>
    rcases ctx with _ | ctx
    · exact ⟨(0 : Int), ctxs, trivial⟩
    rcases cipher with _ | cipher
    · exact ⟨(0 : Int), ctxs, trivial⟩
    · exact exists_answer ctxs ctx (m.initCipher direction cipher)
  | setIvLen ctx len =>
    rcases ctx with _ | ctx
    · exact ⟨(0 : Int), ctxs, trivial⟩
    · exact exists_answer ctxs ctx (m.setIvLen (ctxs ctx) len)
  | initKey direction ctx key nonce =>
    rcases ctx with _ | ctx
    · exact ⟨(0 : Int), ctxs, trivial⟩
    · exact exists_answer ctxs ctx (m.initKey direction (ctxs ctx) key nonce)
  | updateAad direction ctx aad =>
    rcases ctx with _ | ctx
    · exact ⟨(0 : Int), ctxs, trivial⟩
    · exact exists_answer ctxs ctx (m.updateAad direction (ctxs ctx) aad)
  | setTag ctx tag =>
    rcases ctx with _ | ctx
    · exact ⟨(0 : Int), ctxs, trivial⟩
    · exact exists_answer ctxs ctx (m.setTag (ctxs ctx) tag)
  | update direction ctx room input =>
    rcases ctx with _ | ctx
    · exact absurd rfl h.1
    by_cases h1 : (m.update direction (ctxs ctx) input).2 = 1
    · have hlen := m.length_update direction (ctxs ctx) input h1
      refine ⟨⟨1, input.length, (m.update direction (ctxs ctx) input).1.2, hlen.trans_le h.2⟩,
        Function.update ctxs ctx (m.update direction (ctxs ctx) input).1.1, h1.symm, fun _ => ?_⟩
      rw [Function.update_self]
      exact ⟨rfl, rfl⟩
    · exact ⟨⟨(m.update direction (ctxs ctx) input).2, 0, [], Nat.zero_le _⟩, ctxs, rfl,
        fun h => absurd h h1⟩
  | final direction ctx room =>
    rcases ctx with _ | ctx
    · exact ⟨⟨0, 0, [], Nat.zero_le _⟩, ctxs, trivial⟩
    · obtain ⟨rc, ctxs', hanswer⟩ := exists_answer ctxs ctx (m.final direction (ctxs ctx))
      exact ⟨⟨rc, 0, [], Nat.zero_le _⟩, ctxs', hanswer, fun _ => rfl⟩
  | getTag ctx tag =>
    rcases ctx with _ | ctx
    · exact ⟨⟨0, []⟩, ctxs, trivial⟩
    · refine ⟨⟨(m.getTag (ctxs ctx)).2, (m.getTag (ctxs ctx)).1.2⟩,
        Function.update ctxs ctx (m.getTag (ctxs ctx)).1.1, rfl, fun _ => ?_⟩
      rw [Function.update_self]
  | callocState => exact ⟨none, ctxs, trivial⟩
  | calloc size => exact ⟨none, ctxs, trivial⟩
  | malloc size => exact ⟨none, ctxs, trivial⟩
  | memFree ptr => exact ⟨(), ctxs, trivial⟩
  | ctxFree ctx => exact ⟨(), ctxs, trivial⟩

end Calls

/-! ## The code computes it -/

section Backend

variable {m : Machine} {ctxs : Ptr → m.Ctx} {ctx : Ptr} {cipher : Cipher} {state : Backend}

theorem wp_start_machine {direction : Direction} {Q : Int → (Ptr → m.Ctx) → Prop}
    (hc : state.cipher = some cipher)
    (hok : ∀ ctxs', m.started cipher state direction = some (ctxs' ctx) → Q 0 ctxs')
    (hfail : m.started cipher state direction = none → ∀ ctxs', Q (-1) ctxs') :
    (machineEnv m).wp (start state direction (some ctx)) Q ctxs := by
  unfold Machine.started at hok hfail
  unfold start
  rw [Env.wp_bind, hc]
  refine wp_initCipher (fun ctxs₁ h₁ => ?_) fun h₁ rc ctxs₁ hrc => ?_
  swap
  · rw [if_pos hrc]
    exact hfail (by rw [h₁]; rfl) ctxs₁
  rw [h₁] at hok hfail
  rw [if_neg (not_not.2 rfl), Env.wp_bind]
  refine wp_setIvLen (fun ctxs₂ h₂ => ?_) fun h₂ rc ctxs₂ hrc => ?_
  swap
  · rw [if_pos hrc]
    exact hfail (by simp [h₂]) ctxs₂
  simp only [Option.bind_eq_bind, Option.bind_some, h₂] at hok hfail
  rw [if_neg (not_not.2 rfl), Env.wp_bind]
  refine wp_initKey (fun ctxs₃ h₃ => ?_) fun h₃ rc ctxs₃ hrc => ?_
  swap
  · rw [if_pos hrc]
    exact hfail (by simp [h₃]) ctxs₃
  simp only [Option.bind_some, h₃] at hok hfail
  rw [if_neg (not_not.2 rfl), Env.wp_bind]
  refine wp_updateAad (fun ctxs₄ h₄ => ?_) fun h₄ rc ctxs₄ hrc => ?_
  · rw [if_neg (not_not.2 rfl)]
    exact hok ctxs₄ h₄
  · rw [if_pos hrc]
    exact hfail h₄ ctxs₄

theorem wp_encryptWith_machine {out tag : List UInt8} {Q : Int × List UInt8 × List UInt8 →
    (Ptr → m.Ctx) → Prop} (hc : state.cipher = some cipher)
    (hroom : state.message.length ≤ out.length)
    (hok : ∀ out' tag' ctxs', out'.length = out.length →
      m.seal cipher state = some (out'.take state.message.length, tag') → Q (0, out', tag') ctxs')
    (hfail : m.seal cipher state = none → ∀ out' tag' ctxs', Q (-1, out', tag') ctxs') :
    (machineEnv m).wp (encryptWith state (some ctx) out tag) Q ctxs := by
  unfold Machine.seal at hok hfail
  unfold encryptWith
  rw [Env.wp_bind]
  refine wp_start_machine hc (fun ctxs₁ h₁ => ?_) fun h₁ ctxs₁ => ?_
  swap
  · rw [if_pos (by decide)]
    exact hfail (by simp [h₁]) _ _ _
  simp only [Option.bind_eq_bind, Option.bind_some, h₁] at hok hfail
  rw [if_neg (not_not.2 rfl), Env.wp_bind]
  refine wp_update hroom (fun data ctxs₂ hresult hlen hdata h₂ => ?_)
    fun h₂ data ctxs₂ hresult => ?_
  swap
  · simp only [if_pos hresult]
    exact hfail (by simp [h₂]) _ _ _
  simp only [Option.bind_some, h₂] at hok hfail
  rw [if_neg (not_not.2 hresult), Env.wp_bind]
  refine wp_final (fun last ctxs₃ hresult₃ hempty h₃ => ?_) fun h₃ last ctxs₃ hresult₃ => ?_
  swap
  · simp only [if_pos hresult₃]
    exact hfail (by simp [h₃]) _ _ _
  simp only [Option.bind_some, h₃] at hok hfail
  rw [if_neg (not_not.2 hresult₃), Env.wp_bind, hempty, splice_nil]
  refine wp_getTag (fun answer ctxs₄ hresult₄ h₄ => ?_) fun h₄ answer ctxs₄ hresult₄ => ?_
  swap
  · rw [if_pos hresult₄]
    exact hfail (by simp [h₄]) _ _ _
  rw [if_neg (not_not.2 hresult₄)]
  refine hok _ _ _ (length_splice_written data) ?_
  simp only [Option.bind_some, h₄]
  rw [← hdata, take_splice_written]
  rfl

theorem wp_decryptWith_machine {out : List UInt8} {Q : Int × List UInt8 → (Ptr → m.Ctx) → Prop}
    (hc : state.cipher = some cipher) (hroom : state.sealed.length ≤ out.length)
    (hok : ∀ out' ctxs', out'.length = out.length →
      m.unseal cipher state = some (out'.take state.sealed.length) → Q (0, out') ctxs')
    (hfail : m.unseal cipher state = none → ∀ out' ctxs', Q (-1, out') ctxs') :
    (machineEnv m).wp (decryptWith state (some ctx) out) Q ctxs := by
  unfold Machine.unseal at hok hfail
  unfold decryptWith
  rw [Env.wp_bind]
  refine wp_start_machine hc (fun ctxs₁ h₁ => ?_) fun h₁ ctxs₁ => ?_
  swap
  · rw [if_pos (by decide)]
    exact hfail (by simp [h₁]) _ _
  simp only [Option.bind_eq_bind, Option.bind_some, h₁] at hok hfail
  rw [if_neg (not_not.2 rfl), Env.wp_bind]
  refine wp_update hroom (fun data ctxs₂ hresult hlen hdata h₂ => ?_)
    fun h₂ data ctxs₂ hresult => ?_
  swap
  · simp only [if_pos hresult]
    exact hfail (by simp [h₂]) _ _
  simp only [Option.bind_some, h₂] at hok hfail
  rw [if_neg (not_not.2 hresult), Env.wp_bind]
  refine wp_setTag (fun ctxs₃ h₃ => ?_) fun h₃ rc ctxs₃ hrc => ?_
  swap
  · rw [if_pos hrc]
    exact hfail (by simp [h₃]) _ _
  simp only [Option.bind_some, h₃] at hok hfail
  rw [if_neg (not_not.2 rfl), Env.wp_bind]
  refine wp_final (fun last ctxs₄ hresult₄ hempty h₄ => ?_) fun h₄ last ctxs₄ hresult₄ => ?_
  swap
  · simp only [if_pos hresult₄]
    exact hfail (by simp [h₄]) _ _
  rw [if_neg (not_not.2 hresult₄), hempty, splice_nil]
  refine hok _ _ (length_splice_written data) ?_
  simp only [Option.bind_some, h₄]
  rw [← hdata, take_splice_written]
  rfl

/-- A fresh context computes what any other does. -/
theorem wp_encryptOnce_machine {out tag : List UInt8} {Q : Int × List UInt8 × List UInt8 →
    (Ptr → m.Ctx) → Prop} (hc : state.cipher = some cipher)
    (hroom : state.message.length ≤ out.length)
    (hok : ∀ out' tag' ctxs', m.seal cipher state = some (out'.take state.message.length, tag') →
      Q (0, out', tag') ctxs')
    (hfail : m.seal cipher state = none → ∀ out' tag' ctxs', Q (-1, out', tag') ctxs') :
    (machineEnv m).wp (encryptOnce state out tag) Q ctxs := by
  unfold encryptOnce
  rw [Env.wp_bind]
  refine wp_ctxNew fun ctx ctxs₁ => ?_
  simp only
  rw [Env.wp_bind]
  refine wp_encryptWith_machine hc hroom (fun out' tag' ctxs₂ _ hseal => ?_)
    fun hseal out' tag' ctxs₂ => ?_
  · rw [Env.wp_bind]
    exact wp_ctxFree fun ctxs₃ => hok out' tag' ctxs₃ hseal
  · rw [Env.wp_bind]
    exact wp_ctxFree fun ctxs₃ => hfail hseal out' tag' ctxs₃

theorem wp_decryptOnce_machine {out : List UInt8} {Q : Int × List UInt8 → (Ptr → m.Ctx) → Prop}
    (hc : state.cipher = some cipher) (hroom : state.sealed.length ≤ out.length)
    (hok : ∀ out' ctxs', m.unseal cipher state = some (out'.take state.sealed.length) →
      Q (0, out') ctxs')
    (hfail : m.unseal cipher state = none → ∀ out' ctxs', Q (-1, out') ctxs') :
    (machineEnv m).wp (decryptOnce state out) Q ctxs := by
  unfold decryptOnce
  rw [Env.wp_bind]
  refine wp_ctxNew fun ctx ctxs₁ => ?_
  simp only
  rw [Env.wp_bind]
  refine wp_decryptWith_machine hc hroom (fun out' ctxs₂ _ hunseal => ?_)
    fun hunseal out' ctxs₂ => ?_
  · rw [Env.wp_bind]
    exact wp_ctxFree fun ctxs₃ => hok out' ctxs₃ hunseal
  · rw [Env.wp_bind]
    exact wp_ctxFree fun ctxs₃ => hfail hunseal out' ctxs₃

theorem length_sealed (h : Usable state cipher) :
    state.sealed.length = state.messageSize.toNat := by
  unfold Backend.sealed
  rw [List.length_take, min_eq_left h.ciphertext]

/-- An iteration changes neither what is encrypted nor what is decrypted. -/
theorem Usable.next {out tag : List UInt8} (h : Usable state cipher)
    (hlen : out.length = state.output.bytes.length) :
    Usable { state.withOutput out with tag := tag } cipher :=
  ⟨h.known, h.ctx, h.plaintext, h.ciphertext, h.output.trans_eq hlen.symm⟩

/-- An iteration of the loop. -/
def iteration (state : Backend) : Prog Evp (Int × Backend) := do
  match state.operation with
  | .seal => do
    let (rc, output, tag) ← encryptWith state state.ctx state.output.bytes state.tag
    pure (rc, { state.withOutput output with tag := tag })
  | .open => do
    let (rc, output) ← decryptWith state state.ctx state.output.bytes
    pure (rc, state.withOutput output)

theorem batch_succ (iterations : ℕ) : batch state (iterations + 1) = (do
    let (rc, state) ← iteration state
    if rc ≠ 0 then pure (-1, state) else batch state iterations) := by
  unfold iteration
  rw [batch]
  rcases state.operation with _ | _
  · simp only [bind_assoc, pure_bind]
  · simp only [bind_assoc, pure_bind]

theorem wp_iteration_seal {Q : Int × Backend → (Ptr → m.Ctx) → Prop}
    (h : Usable state cipher) (hop : state.operation = .seal)
    (hok : ∀ out tag ctxs', out.length = state.output.bytes.length →
      m.seal cipher state = some (out.take state.messageSize.toNat, tag) →
      Q (0, { state.withOutput out with tag := tag }) ctxs')
    (hfail : m.seal cipher state = none → ∀ state' ctxs', Q (-1, state') ctxs') :
    (machineEnv m).wp (iteration state) Q ctxs := by
  obtain ⟨ctx, hctx⟩ := Option.ne_none_iff_exists'.1 h.ctx
  have hmessage := length_message h.plaintext
  unfold iteration
  simp only [hop, hctx]
  rw [Env.wp_bind]
  refine wp_encryptWith_machine h.known (hmessage.trans_le h.output)
    (fun out tag ctxs₁ hlen hseal => ?_) fun hseal out tag ctxs₁ => hfail hseal _ ctxs₁
  rw [hmessage] at hseal
  exact hok out tag ctxs₁ hlen hseal

theorem wp_iteration_open {Q : Int × Backend → (Ptr → m.Ctx) → Prop}
    (h : Usable state cipher) (hop : state.operation = .open)
    (hok : ∀ out ctxs', out.length = state.output.bytes.length →
      m.unseal cipher state = some (out.take state.messageSize.toNat) →
      Q (0, state.withOutput out) ctxs')
    (hfail : m.unseal cipher state = none → ∀ state' ctxs', Q (-1, state') ctxs') :
    (machineEnv m).wp (iteration state) Q ctxs := by
  obtain ⟨ctx, hctx⟩ := Option.ne_none_iff_exists'.1 h.ctx
  have hsealed := length_sealed h
  unfold iteration
  simp only [hop, hctx]
  rw [Env.wp_bind]
  refine wp_decryptWith_machine h.known (hsealed.trans_le h.output)
    (fun out ctxs₁ hlen hunseal => ?_) fun hunseal out ctxs₁ => hfail hunseal _ ctxs₁
  rw [hsealed] at hunseal
  exact hok out ctxs₁ hlen hunseal

/-- Every iteration of a batch of at least one has the outcome of the first: an iteration from a
state of `I` has `outcome`, shows it in the state it leaves, and leaves a state of `I`. -/
theorem wp_batch_machine {γ : Type} {I : Backend → Prop} {outcome : Option γ} {view : Backend → γ}
    (hstep : ∀ {state : Backend} {ctxs : Ptr → m.Ctx} {Q : Int × Backend → (Ptr → m.Ctx) → Prop},
      I state → (∀ state' ctxs', I state' → outcome = some (view state') → Q (0, state') ctxs') →
      (outcome = none → ∀ state' ctxs', Q (-1, state') ctxs') →
      (machineEnv m).wp (iteration state) Q ctxs)
    {k : ℕ} {Q : Int × Backend → (Ptr → m.Ctx) → Prop} (h : I state)
    (hok : ∀ state' ctxs', outcome = some (view state') → Q (0, state') ctxs')
    (hfail : outcome = none → ∀ state' ctxs', Q (-1, state') ctxs') :
    (machineEnv m).wp (batch state (k + 1)) Q ctxs := by
  induction k generalizing state ctxs with
  | zero =>
    rw [batch_succ, Env.wp_bind]
    exact hstep h (fun state' ctxs₁ _ hview => hok state' ctxs₁ hview) hfail
  | succ k ih =>
    rw [batch_succ, Env.wp_bind]
    exact hstep h (fun state' ctxs₁ h' _ => ih h') hfail

theorem wp_batch_seal {k : ℕ} {Q : Int × Backend → (Ptr → m.Ctx) → Prop}
    (h : Usable state cipher) (hop : state.operation = .seal)
    (hok : ∀ state' ctxs', m.seal cipher state
      = some (state'.output.bytes.take state.messageSize.toNat, state'.tag) → Q (0, state') ctxs')
    (hfail : m.seal cipher state = none → ∀ state' ctxs', Q (-1, state') ctxs') :
    (machineEnv m).wp (batch state (k + 1)) Q ctxs := by
  refine @wp_batch_machine m ctxs state _ (fun state' => Usable state' cipher
    ∧ state'.operation = .seal ∧ state'.messageSize = state.messageSize
    ∧ m.seal cipher state' = m.seal cipher state) _ (fun state' =>
    (state'.output.bytes.take state.messageSize.toNat, state'.tag)) ?_ k Q ⟨h, hop, rfl, rfl⟩
    hok hfail
  rintro state₁ ctxs₁ Q₁ ⟨h₁, hop₁, hsize, hseal₁⟩ hok₁ hfail₁
  refine wp_iteration_seal h₁ hop₁ (fun out tag ctxs₂ hlen hseal => ?_) fun hseal =>
    hfail₁ (hseal₁.symm.trans hseal)
  rw [hsize] at hseal
  exact hok₁ _ ctxs₂ ⟨h₁.next hlen, hop₁, hsize, hseal₁⟩ (hseal₁.symm.trans hseal)

theorem wp_batch_open {k : ℕ} {Q : Int × Backend → (Ptr → m.Ctx) → Prop}
    (h : Usable state cipher) (hop : state.operation = .open)
    (hok : ∀ state' ctxs', m.unseal cipher state
      = some (state'.output.bytes.take state.messageSize.toNat) → Q (0, state') ctxs')
    (hfail : m.unseal cipher state = none → ∀ state' ctxs', Q (-1, state') ctxs') :
    (machineEnv m).wp (batch state (k + 1)) Q ctxs := by
  refine @wp_batch_machine m ctxs state _ (fun state' => Usable state' cipher
    ∧ state'.operation = .open ∧ state'.messageSize = state.messageSize
    ∧ m.unseal cipher state' = m.unseal cipher state) _ (fun state' =>
    state'.output.bytes.take state.messageSize.toNat) ?_ k Q ⟨h, hop, rfl, rfl⟩ hok hfail
  rintro state₁ ctxs₁ Q₁ ⟨h₁, hop₁, hsize, hunseal₁⟩ hok₁ hfail₁
  refine wp_iteration_open h₁ hop₁ (fun out ctxs₂ hlen hunseal => ?_) fun hunseal =>
    hfail₁ (hunseal₁.symm.trans hunseal)
  rw [hsize] at hunseal
  exact hok₁ _ ctxs₂ ⟨h₁.next hlen, hop₁, hsize, hunseal₁⟩ (hunseal₁.symm.trans hunseal)

/-- The end of a batch writes the checksum only. -/
theorem wp_runBatch_machine {iterations : UInt64} {Q : Int × Backend → (Ptr → m.Ctx) → Prop}
    (h : (machineEnv m).wp (batch state iterations.toNat) (fun out ctxs' =>
      (out.1 ≠ 0 → Q (-1, out.2) ctxs')
        ∧ (out.1 = 0 → ∀ checksum, Q (0, { out.2 with checksum := checksum }) ctxs')) ctxs) :
    (machineEnv m).wp (ofbBackendRunBatch state iterations) Q ctxs := by
  unfold ofbBackendRunBatch
  rw [Env.wp_bind]
  refine Env.wp_mono _ h ?_
  rintro ⟨rc, state'⟩ ctxs' ⟨hne, heq⟩
  simp only [] at hne heq ⊢
  by_cases hrc : rc = 0
  · rw [if_neg (not_not.2 hrc)]
    exact heq hrc _
  · rw [if_pos hrc]
    exact hne hrc

end Backend

/-- The program can return `a` on the machine `m`, from these contexts. -/
def Outcome (m : Machine) {α : Type} (p : Prog Evp α) (ctxs : Ptr → m.Ctx) (a : α) : Prop :=
  ∃ t ctxs', p.Runs t a ∧ (machineEnv m).Path ctxs t ctxs'

section Outcome

variable {m : Machine} {α : Type} {p : Prog Evp α} {ctxs : Ptr → m.Ctx} {Q : α → Prop}

theorem exists_outcome (h : (machineEnv m).wp p (fun a _ => Q a) ctxs) :
    ∃ a, Outcome m p ctxs a := by
  obtain ⟨t, a, ctxs', hrun, hpath⟩ :=
    Env.wp_exists_run _ h fun ctxs c hpre => machineEnv_answers c hpre
  exact ⟨a, t, ctxs', hrun, hpath⟩

theorem Outcome.of_wp (h : (machineEnv m).wp p (fun a _ => Q a) ctxs) {a : α}
    (ha : Outcome m p ctxs a) : Q a := by
  obtain ⟨t, ctxs', hrun, hpath⟩ := ha
  exact Env.wp_sound _ h hrun hpath

end Outcome

/-- The outcomes of a batch and of a one-shot call agree: both return 0 or neither does, and where
they do, `Same` holds of them. -/
def Agree (m : Machine) {α β : Type} (batch : Prog Evp (Int × α)) (once : Prog Evp (Int × β))
    (ctxs ctxs' : Ptr → m.Ctx) (Same : α → β → Prop) : Prop :=
  (∃ out, Outcome m batch ctxs out) ∧ (∃ out, Outcome m once ctxs' out)
    ∧ ∀ a b, Outcome m batch ctxs a → Outcome m once ctxs' b →
      (a.1 = 0 ↔ b.1 = 0) ∧ (a.1 = 0 → Same a.2 b.2)

theorem agree_of_wp {m : Machine} {α β γ : Type} {batch : Prog Evp (Int × α)}
    {once : Prog Evp (Int × β)} {ctxs ctxs' : Ptr → m.Ctx} {Same : α → β → Prop}
    (outcome : Option γ) (f : α → γ) (g : β → γ)
    (hbatch : (machineEnv m).wp batch (fun a _ => (a.1 = 0 ∧ outcome = some (f a.2))
      ∨ (a.1 ≠ 0 ∧ outcome = none)) ctxs)
    (honce : (machineEnv m).wp once (fun b _ => (b.1 = 0 ∧ outcome = some (g b.2))
      ∨ (b.1 ≠ 0 ∧ outcome = none)) ctxs')
    (hsame : ∀ a b, f a = g b → Same a b) : Agree m batch once ctxs ctxs' Same := by
  refine ⟨exists_outcome hbatch, exists_outcome honce, fun a b ha hb => ?_⟩
  rcases ha.of_wp hbatch with ⟨ha0, hfa⟩ | ⟨ha0, hfa⟩ <;>
    rcases hb.of_wp honce with ⟨hb0, hgb⟩ | ⟨hb0, hgb⟩
  · refine ⟨iff_of_true ha0 hb0, fun _ => hsame _ _ ?_⟩
    rw [hfa, Option.some.injEq] at hgb
    exact hgb
  · simp [hfa] at hgb
  · simp [hfa] at hgb
  · exact ⟨iff_of_false ha0 hb0, fun h0 => absurd h0 ha0⟩

/-- A batch of at least one iteration, on the reused context in whatever state, agrees with the
one-shot call on a fresh context. -/
theorem runBatch_oneShot (m : Machine) (state : Backend) (cipher : Cipher)
    (h : Usable state cipher) (iterations : UInt64) (hk : 1 ≤ iterations.toNat)
    (ctxs ctxs' : Ptr → m.Ctx) (buffer unset : List UInt8)
    (hbuffer : state.messageSize.toNat ≤ buffer.length) :
    (state.operation = .seal →
      Agree m (ofbBackendRunBatch state iterations) (encryptOnce state buffer unset) ctxs ctxs'
        fun state' once =>
          state'.output.bytes.take state.messageSize.toNat = once.1.take state.messageSize.toNat
            ∧ state'.tag = once.2)
    ∧ (state.operation = .open →
      Agree m (ofbBackendRunBatch state iterations) (decryptOnce state buffer) ctxs ctxs'
        fun state' once =>
          state'.output.bytes.take state.messageSize.toNat
            = once.take state.messageSize.toNat) := by
  obtain ⟨k, hk⟩ := Nat.exists_eq_add_of_le' hk
  have hmessage := length_message h.plaintext
  have hsealed := length_sealed h
  constructor
  · intro hop
    refine agree_of_wp (m.seal cipher state)
      (fun state' => (state'.output.bytes.take state.messageSize.toNat, state'.tag))
      (fun once => (once.1.take state.messageSize.toNat, once.2)) ?_ ?_ ?_
    · refine wp_runBatch_machine ?_
      rw [hk]
      refine wp_batch_seal h hop (fun state' ctxs₁ hseal => ?_) fun hseal state' ctxs₁ => ?_
      · exact ⟨fun hne => absurd rfl hne, fun _ checksum => .inl ⟨rfl, hseal⟩⟩
      · exact ⟨fun _ => .inr ⟨by simp, hseal⟩, fun h0 => by simp at h0⟩
    · refine wp_encryptOnce_machine h.known (hmessage.trans_le hbuffer)
        (fun out' tag' ctxs₁ hseal => ?_) fun hseal out' tag' ctxs₁ => .inr ⟨by simp, hseal⟩
      rw [hmessage] at hseal
      exact .inl ⟨rfl, hseal⟩
    · rintro state' once heq
      exact Prod.mk.inj heq
  · intro hop
    refine agree_of_wp (m.unseal cipher state)
      (fun state' => state'.output.bytes.take state.messageSize.toNat)
      (fun once => once.take state.messageSize.toNat) ?_ ?_ fun _ _ heq => heq
    · refine wp_runBatch_machine ?_
      rw [hk]
      refine wp_batch_open h hop (fun state' ctxs₁ hunseal => ?_) fun hunseal state' ctxs₁ => ?_
      · exact ⟨fun hne => absurd rfl hne, fun _ checksum => .inl ⟨rfl, hunseal⟩⟩
      · exact ⟨fun _ => .inr ⟨by simp, hunseal⟩, fun h0 => by simp at h0⟩
    · refine wp_decryptOnce_machine h.known (hsealed.trans_le hbuffer)
        (fun out' ctxs₁ hunseal => ?_) fun hunseal out' ctxs₁ => .inr ⟨by simp, hunseal⟩
      rw [hsealed] at hunseal
      exact .inl ⟨rfl, hunseal⟩

/-- The machine of `twoByteScheme`: its contexts go through the phases. -/
def twoByteMachine : Machine where
  Ctx := Phase
  initCipher direction cipher := (.cipherSet direction cipher, 1)
  setIvLen phase _ :=
    match phase with
    | .cipherSet direction cipher => (.ivLenSet direction cipher, 1)
    | phase => (phase, 0)
  initKey _ phase key nonce :=
    match phase with
    | .ivLenSet direction cipher => (.keySet direction cipher key nonce, 1)
    | phase => (phase, 0)
  updateAad _ phase aad :=
    match phase with
    | .keySet direction cipher key nonce => (.aadGiven direction cipher key nonce aad, 1)
    | phase => (phase, 0)
  update _ phase input :=
    match phase with
    | .aadGiven direction cipher key nonce aad =>
      ((.dataGiven direction ⟨cipher, key, nonce, aad, input⟩,
        twoByteScheme.output direction ⟨cipher, key, nonce, aad, input⟩), 1)
    | phase => ((phase, []), 0)
  final _ phase :=
    match phase with
    | .dataGiven _ session => (.finished session, 1)
    | .tagSet session tag =>
      if (twoByteScheme.dec session.cipher session.key session.nonce session.aad session.input
        tag).isSome then (.finished session, 1) else (.unknown, 0)
    | phase => (phase, 0)
  getTag phase :=
    match phase with
    | .finished session => ((phase, (twoByteScheme.enc session.cipher session.key session.nonce
        session.aad session.input).2), 1)
    | phase => ((phase, []), 0)
  setTag phase tag :=
    match phase with
    | .dataGiven _ session => (.tagSet session tag, 1)
    | phase => (phase, 0)
  length_update direction phase input h := by
    cases phase with
    | aadGiven direction cipher key nonce aad =>
      cases direction with
      | encrypt => exact twoByteScheme.length_enc cipher key nonce aad input
      | decrypt => exact List.length_mapIdx
    | _ => simp at h

/-- Three encryptions on a context left in the middle of a decryption, and one on a fresh
context. -/
theorem runBatch_oneShot_twoBytes :
    ∃ a b, Outcome twoByteMachine (ofbBackendRunBatch twoByteBackend 3)
        (fun _ => .ivLenSet .decrypt .aes256Gcm) a
      ∧ Outcome twoByteMachine (encryptOnce twoByteBackend (List.replicate 18 0) [])
        (fun _ => .unknown) b
      ∧ a.1 = 0 ∧ b.1 = 0 ∧ a.2.output.bytes.take 2 = b.2.1.take 2 ∧ a.2.tag = b.2.2 := by
  have hseal : twoByteMachine.seal .aes128Gcm twoByteBackend
      = some ([5, 37], twoByteBackend.tag) := by decide
  have hagree := (runBatch_oneShot twoByteMachine twoByteBackend .aes128Gcm
    ⟨rfl, by decide, by decide, by decide, by decide⟩ 3 (by decide)
    (fun _ => .ivLenSet .decrypt .aes256Gcm) (fun _ => .unknown) (List.replicate 18 0) []
    (by decide)).1 rfl
  obtain ⟨⟨a, ha⟩, ⟨b, hb⟩, hall⟩ := hagree
  obtain ⟨hiff, hsame⟩ := hall a b ha hb
  have hb0 : b.1 = 0 := by
    refine hb.of_wp (Q := fun b => b.1 = 0) (wp_encryptOnce_machine rfl (by decide)
      (fun _ _ _ _ => rfl) fun hnone => ?_)
    rw [hseal] at hnone
    simp at hnone
  exact ⟨a, b, ha, hb, hiff.2 hb0, hb0, (hsame (hiff.2 hb0)).1, (hsame (hiff.2 hb0)).2⟩

end OfbBench.Aead
