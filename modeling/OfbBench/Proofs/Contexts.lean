import OfbBench.Lib.Custody
import OfbBench.Proofs.Fixture
import OfbBench.Proofs.Linked
import OfbBench.Proofs.OneShot

/-!
# The AEAD backend keeps to its library's protocol

The library wants the calls on a cipher context in an order (`Progress`), each with arguments it
can take, and the allocator wants what it handed out back (`evp`). The backend keeps to that
whatever fails: a context is new or done with when an operation on it begins, and each step is made
only after the one before returned 1.
-/

namespace OfbBench.Aead

open Ledger

inductive Resource
  | memory (ptr : Ptr)
  | ctx (ptr : Ptr)
  deriving DecidableEq, Repr

/-- How far the operation on a context has come: none, the cipher is set, the length of the nonce,
the key, the additional data is read, the data, the expected tag is set, the tag can be read. -/
inductive Progress
  | idle
  | ciphered (direction : Direction)
  | sized (direction : Direction)
  | keyed (direction : Direction)
  | authenticated (direction : Direction)
  | processed (direction : Direction)
  | expecting
  | sealed
  deriving DecidableEq, Repr

/-- The objects a call is made on. -/
def usesOf : Evp.Call → List Resource
  | .memFree (some ptr) => [.memory ptr]
  | .ctxFree (some ctx) => [.ctx ctx]
  | .initCipher _ (some ctx) _ => [.ctx ctx]
  | .setIvLen (some ctx) _ => [.ctx ctx]
  | .initKey _ (some ctx) _ _ => [.ctx ctx]
  | .updateAad _ (some ctx) _ => [.ctx ctx]
  | .update _ (some ctx) _ _ => [.ctx ctx]
  | .final _ (some ctx) _ => [.ctx ctx]
  | .getTag (some ctx) _ => [.ctx ctx]
  | .setTag (some ctx) _ => [.ctx ctx]
  | _ => []

/-- A call that allocates asks for bytes; one on a context is not made on NULL, and only when the
call before it has been; the data fits the buffer it goes to, and its length an `int`. -/
def asksOf (progress : Resource → Progress) : Evp.Call → Prop
  | .calloc size => size ≠ 0
  | .malloc size => size ≠ 0
  | .initCipher _ (some _) cipher => cipher ≠ none
  | .setIvLen (some ctx) len => (∃ d, progress (.ctx ctx) = .ciphered d) ∧ len = nonceSize
  | .initKey d (some ctx) key nonce =>
    progress (.ctx ctx) = .sized d ∧ key.length = 32 ∧ nonce.length = nonceSize
  | .updateAad d (some ctx) aad =>
    progress (.ctx ctx) = .keyed d ∧ aad.length ≤ intMax.toNat
  | .update d (some ctx) room input => progress (.ctx ctx) = .authenticated d
    ∧ input.length ≤ room ∧ input.length ≤ intMax.toNat
  | .final .encrypt (some ctx) _ => progress (.ctx ctx) = .processed .encrypt
  | .final .decrypt (some ctx) _ => progress (.ctx ctx) = .expecting
  | .getTag (some ctx) tag => progress (.ctx ctx) = .sealed ∧ tag.length = tagSize
  | .setTag (some ctx) tag => progress (.ctx ctx) = .processed .decrypt ∧ tag.length = tagSize
  | .callocState => True
  | .memFree _ => True
  | .ctxNew => True
  | .ctxFree _ => True
  | _ => False

/-- A data call that returns 1 has written as many bytes as it was given; the tag is read into the
buffer it is given. -/
def answersOf : (call : Evp.Call) → Evp.Resp call → Prop
  | .update _ _ _ input, answer => answer.result = 1 → answer.len = input.length
  | .getTag _ tag, answer => answer.tag.length = tag.length
  | _, _ => True

def actsOf : (call : Evp.Call) → Evp.Resp call → List (Act Resource)
  | .callocState, some ptr => [.acquire (.memory ptr)]
  | .calloc _, some ptr => [.acquire (.memory ptr)]
  | .malloc _, some block => [.acquire (.memory block.ptr)]
  | .memFree (some ptr), _ => [.release (.memory ptr)]
  | .ctxNew, some ctx => [.acquire (.ctx ctx)]
  | .ctxFree (some ctx), _ => [.release (.ctx ctx)]
  | _, _ => []

/-- Where setting the length of the nonce leads. -/
def Progress.resized : Progress → Progress
  | .ciphered d => .sized d
  | _ => .idle

/-- The next stage of an operation, if the call returned 1; it is over if not. -/
def advance (progress : Resource → Progress) (ctx : Ptr) (result : Int) (next : Progress) :
    Resource → Progress :=
  Function.update progress (.ctx ctx) (if result = 1 then next else .idle)

def progressAfter (progress : Resource → Progress) : (call : Evp.Call) → Evp.Resp call →
    Resource → Progress
  | .ctxNew, some ctx => Function.update progress (.ctx ctx) .idle
  | .initCipher d (some ctx) _, rc => advance progress ctx rc (.ciphered d)
  | .setIvLen (some ctx) _, rc => advance progress ctx rc (progress (.ctx ctx)).resized
  | .initKey d (some ctx) _ _, rc => advance progress ctx rc (.keyed d)
  | .updateAad d (some ctx) _, rc => advance progress ctx rc (.authenticated d)
  | .update d (some ctx) _ _, answer => advance progress ctx answer.result (.processed d)
  | .setTag (some ctx) _, rc => advance progress ctx rc .expecting
  | .final .encrypt (some ctx) _, answer => advance progress ctx answer.result .sealed
  | .final .decrypt (some ctx) _, answer => advance progress ctx answer.result .idle
  | _, _ => progress

def evp : Custody Evp Resource Progress where
  uses := usesOf
  asks := asksOf
  answers _ := answersOf
  acts _ := actsOf
  after := progressAfter

abbrev EvpBooks := Custody.Books Resource Progress

/-! ## One operation on a context -/

/-- A backend whose buffers hold what the calls are given of them. -/
structure Ready (state : Backend) : Prop where
  cipher : state.cipher ≠ none
  ctx : state.ctx ≠ none
  key : state.key.length = 32
  nonce : state.nonce.length = nonceSize
  tag : state.tag.length = tagSize
  aad : state.aadSize.toNat ≤ state.aad.bytes.length
  plaintext : state.messageSize.toNat ≤ state.plaintext.bytes.length
  ciphertext : state.messageSize.toNat ≤ state.ciphertext.bytes.length
  output : state.messageSize.toNat ≤ state.output.bytes.length
  aadSize : state.aadSize ≤ intMax
  messageSize : state.messageSize ≤ intMax

section Operation

variable {books : EvpBooks} {S : Multiset Resource} {ctx : Ptr} {state : Backend}

/-- A call on a held context. -/
theorem wp_onContext {call : Evp.Call} {Q : Evp.Resp call → EvpBooks → Prop}
    (h : Holds books.log S) (hctx : .ctx ctx ∈ S) (huses : usesOf call = [.ctx ctx])
    (hasks : asksOf books.phase call) (hacts : ∀ answer, actsOf call answer = [])
    (hQ : ∀ answer, answersOf call answer →
      Q answer ⟨books.log, progressAfter books.phase call answer⟩) :
    evp.env.wp (Prog.ask (A := Evp) call) Q books := by
  refine Custody.wp_neutral (K := evp) h (fun r hr => ?_) hasks hacts hQ
  have hr' : r ∈ usesOf call := hr
  rw [huses, List.mem_singleton] at hr'
  exact hr' ▸ hctx

theorem advance_one {progress : Resource → Progress} {next : Progress} :
    advance progress ctx 1 next (.ctx ctx) = next := Function.update_self _ _ _

theorem Ready.aadBytes (hr : Ready state) : state.aadBytes.length ≤ intMax.toNat := by
  unfold Backend.aadBytes
  rw [List.length_take]
  exact (min_le_left _ _).trans (UInt64.le_iff_toNat_le.1 hr.aadSize)

theorem wp_start_custody {direction : Direction} {Q : Int → EvpBooks → Prop} (hr : Ready state)
    (h : Holds books.log S) (hctx : .ctx ctx ∈ S)
    (hok : ∀ phase, phase (.ctx ctx) = .authenticated direction → Q 0 ⟨books.log, phase⟩)
    (hfail : ∀ phase, Q (-1) ⟨books.log, phase⟩) :
    evp.env.wp (start state direction (some ctx)) Q books := by
  unfold start
  rw [Env.wp_bind]
  refine wp_onContext h hctx rfl hr.cipher (fun _ => rfl) fun (rc₁ : Int) _ => ?_
  by_cases hrc₁ : rc₁ ≠ 1
  · rw [if_pos hrc₁]
    exact hfail _
  rw [if_neg hrc₁, Env.wp_bind]
  rw [not_not] at hrc₁
  subst hrc₁
  refine wp_onContext h hctx rfl ⟨⟨direction, advance_one⟩, rfl⟩ (fun _ => rfl)
    fun (rc₂ : Int) _ => ?_
  by_cases hrc₂ : rc₂ ≠ 1
  · rw [if_pos hrc₂]
    exact hfail _
  rw [if_neg hrc₂, Env.wp_bind]
  rw [not_not] at hrc₂
  subst hrc₂
  have hsized : progressAfter (advance books.phase ctx 1 (.ciphered direction))
      (.setIvLen (some ctx) nonceSize) (1 : Int) (.ctx ctx) = .sized direction := by
    refine advance_one.trans ?_
    rw [advance_one]
    rfl
  refine wp_onContext h hctx rfl ⟨hsized, hr.key, hr.nonce⟩ (fun _ => rfl) fun (rc₃ : Int) _ => ?_
  by_cases hrc₃ : rc₃ ≠ 1
  · rw [if_pos hrc₃]
    exact hfail _
  rw [if_neg hrc₃, Env.wp_bind]
  rw [not_not] at hrc₃
  subst hrc₃
  refine wp_onContext h hctx rfl ⟨advance_one, hr.aadBytes⟩ (fun _ => rfl) fun (rc₄ : Int) _ => ?_
  by_cases hrc₄ : rc₄ ≠ 1
  · rw [if_pos hrc₄]
    exact hfail _
  rw [if_neg hrc₄]
  rw [not_not] at hrc₄
  subst hrc₄
  exact hok _ advance_one

theorem Ready.length_sealed (hr : Ready state) :
    state.sealed.length = state.messageSize.toNat := by
  unfold Backend.sealed
  rw [List.length_take, min_eq_left hr.ciphertext]

theorem Ready.messageSize_le (hr : Ready state) : state.messageSize.toNat ≤ intMax.toNat :=
  UInt64.le_iff_toNat_le.1 hr.messageSize

theorem wp_encryptWith_custody {out tag : List UInt8}
    {Q : Int × List UInt8 × List UInt8 → EvpBooks → Prop} (hr : Ready state)
    (h : Holds books.log S) (hctx : .ctx ctx ∈ S) (hout : state.messageSize.toNat ≤ out.length)
    (htag : tag.length = tagSize)
    (hQ : ∀ rc out' tag' phase, out'.length = out.length → tag'.length = tagSize →
      Q (rc, out', tag') ⟨books.log, phase⟩) :
    evp.env.wp (encryptWith state (some ctx) out tag) Q books := by
  unfold encryptWith
  rw [Env.wp_bind]
  refine wp_start_custody hr h hctx (fun phase₁ h₁ => ?_) fun phase₁ => hQ _ _ _ _ rfl htag
  rw [if_neg (not_not.2 rfl), Env.wp_bind]
  have hmessage := length_message hr.plaintext
  have hint := hr.messageSize_le
  refine wp_onContext h hctx rfl ⟨h₁, by omega, by omega⟩ (fun _ => rfl)
    fun (data : Written out.length) (hdata : data.result = 1 → data.len = _) => ?_
  have hlen := length_splice_written data
  by_cases hresult : data.result ≠ 1
  · simp only [if_pos hresult]
    exact hQ _ _ _ _ hlen htag
  simp only [if_neg hresult]
  rw [not_not] at hresult
  have hle : data.len ≤ out.length := by
    rw [hdata hresult, hmessage]
    exact hout
  rw [Env.wp_bind]
  refine wp_onContext h hctx rfl (show advance phase₁ ctx data.result _ _ = _ by
    rw [hresult, advance_one]) (fun _ => rfl) fun last _ => ?_
  have hlast := length_splice_last data hle last
  by_cases hresult' : last.result ≠ 1
  · simp only [if_pos hresult']
    exact hQ _ _ _ _ hlast htag
  simp only [if_neg hresult']
  rw [not_not] at hresult'
  rw [Env.wp_bind]
  refine wp_onContext h hctx rfl ⟨show advance _ ctx last.result _ _ = _ by
    rw [hresult', advance_one], htag⟩ (fun _ => rfl)
    fun (answer : TagAnswer) (hanswer : answer.tag.length = tag.length) => ?_
  split_ifs with hrc
  · exact hQ _ _ _ _ hlast (hanswer.trans htag)
  · exact hQ _ _ _ _ hlast (hanswer.trans htag)

theorem wp_decryptWith_custody {out : List UInt8} {Q : Int × List UInt8 → EvpBooks → Prop}
    (hr : Ready state) (h : Holds books.log S) (hctx : .ctx ctx ∈ S)
    (hout : state.messageSize.toNat ≤ out.length)
    (hQ : ∀ rc out' phase, out'.length = out.length → Q (rc, out') ⟨books.log, phase⟩) :
    evp.env.wp (decryptWith state (some ctx) out) Q books := by
  unfold decryptWith
  rw [Env.wp_bind]
  refine wp_start_custody hr h hctx (fun phase₁ h₁ => ?_) fun phase₁ => hQ _ _ _ rfl
  rw [if_neg (not_not.2 rfl), Env.wp_bind]
  have hsealed := hr.length_sealed
  have hint := hr.messageSize_le
  refine wp_onContext h hctx rfl ⟨h₁, by omega, by omega⟩ (fun _ => rfl)
    fun (data : Written out.length) (hdata : data.result = 1 → data.len = _) => ?_
  have hlen := length_splice_written data
  by_cases hresult : data.result ≠ 1
  · simp only [if_pos hresult]
    exact hQ _ _ _ hlen
  simp only [if_neg hresult]
  rw [not_not] at hresult
  have hle : data.len ≤ out.length := by
    rw [hdata hresult, hsealed]
    exact hout
  rw [Env.wp_bind]
  refine wp_onContext h hctx rfl ⟨show advance phase₁ ctx data.result _ _ = _ by
    rw [hresult, advance_one], hr.tag⟩ (fun _ => rfl) fun (rc : Int) _ => ?_
  by_cases hrc : rc ≠ 1
  · simp only [if_pos hrc]
    exact hQ _ _ _ hlen
  simp only [if_neg hrc]
  rw [not_not] at hrc
  subst hrc
  rw [Env.wp_bind]
  refine wp_onContext h hctx rfl (show advance _ ctx 1 _ _ = _ from advance_one) (fun _ => rfl)
    fun last _ => ?_
  have hlast := length_splice_last data hle last
  by_cases hresult' : last.result ≠ 1
  · simp only [if_pos hresult']
    exact hQ _ _ _ hlast
  · simp only [if_neg hresult']
    exact hQ _ _ _ hlast

end Operation

/-! ## What a backend holds -/

/-- An object that may be NULL. -/
def held (resource : Ptr → Resource) (ptr : Option Ptr) : Multiset Resource :=
  (ptr.toList.map resource : List Resource)

def backendHeld (state : Backend) : Multiset Resource :=
  held .ctx state.ctx + (held .memory state.aad.ptr + (held .memory state.plaintext.ptr
    + (held .memory state.ciphertext.ptr + (held .memory state.output.ptr
    + held .memory (some state.self)))))

section Calls

variable {books : EvpBooks} {S : Multiset Resource}

/-- An allocation that may fail. -/
theorem wp_acquire_custody {call : Evp.Call} (ptr : Evp.Resp call → Option Ptr)
    {resource : Ptr → Resource} {Q : Evp.Resp call → EvpBooks → Prop} (h : Holds books.log S)
    (huses : usesOf call = []) (hasks : asksOf books.phase call)
    (hacts : ∀ answer, actsOf call answer = ((ptr answer).toList.map resource).map .acquire)
    (hQ : ∀ answer log phase, Holds log (held resource (ptr answer) + S) →
      Q answer ⟨log, phase⟩) : evp.env.wp (Prog.ask (A := Evp) call) Q books := by
  refine Custody.wp_acquires (K := evp) (fun answer => (ptr answer).toList.map resource) h
    (fun r hr => ?_) hasks hacts fun answer log _ hlog => hQ answer log _ hlog
  have hr' : r ∈ usesOf call := hr
  rw [huses] at hr'
  simp at hr'

theorem wp_calloc_custody {size : UInt64} {Q : Option Ptr → EvpBooks → Prop}
    (h : Holds books.log S) (hsize : size ≠ 0)
    (hQ : ∀ ptr log phase, Holds log (held .memory ptr + S) → Q ptr ⟨log, phase⟩) :
    evp.env.wp (calloc size) Q books :=
  wp_acquire_custody id h rfl hsize (fun ptr => by cases ptr <;> rfl) hQ

theorem wp_malloc_custody {size : UInt64} {Q : Option (Block size.toNat) → EvpBooks → Prop}
    (h : Holds books.log S) (hsize : size ≠ 0)
    (hQ : ∀ block log phase, Holds log (held .memory (Block.buffer block).ptr + S) →
      Q block ⟨log, phase⟩) : evp.env.wp (malloc size) Q books :=
  wp_acquire_custody (fun block => (Block.buffer block).ptr) h rfl hsize
    (fun block => by cases block <;> rfl) hQ

theorem wp_evpCtxNew_custody {Q : Option Ptr → EvpBooks → Prop} (h : Holds books.log S)
    (hQ : ∀ ctx log phase, Holds log (held .ctx ctx + S) → Q ctx ⟨log, phase⟩) :
    evp.env.wp evpCtxNew Q books :=
  wp_acquire_custody id h rfl trivial (fun ctx => by cases ctx <;> rfl) hQ

/-- The release of an object that may be NULL. -/
theorem wp_release_custody {call : Evp.Call} {ptr : Option Ptr} {resource : Ptr → Resource}
    {Q : Evp.Resp call → EvpBooks → Prop} (h : Holds books.log (held resource ptr + S))
    (huses : usesOf call = ptr.toList.map resource) (hasks : asksOf books.phase call)
    (hacts : ∀ answer, actsOf call answer = (ptr.toList.map resource).map .release)
    (hQ : ∀ answer log phase, Holds log S → Q answer ⟨log, phase⟩) :
    evp.env.wp (Prog.ask (A := Evp) call) Q books := by
  refine Custody.wp_releases (K := evp) (ptr.toList.map resource) h (fun r hr => ?_) hasks hacts
    fun answer log hlog => hQ answer log _ hlog
  have hr' : r ∈ usesOf call := hr
  rw [huses] at hr'
  exact Multiset.mem_add.2 (.inl hr')

theorem wp_memFree_custody {ptr : Option Ptr} {Q : Unit → EvpBooks → Prop}
    (h : Holds books.log (held .memory ptr + S))
    (hQ : ∀ log phase, Holds log S → Q () ⟨log, phase⟩) :
    evp.env.wp (memFree ptr) Q books :=
  wp_release_custody h (by cases ptr <;> rfl) (by cases ptr <;> trivial)
    (fun _ => by cases ptr <;> rfl) fun _ => hQ

theorem wp_evpCtxFree_custody {ctx : Option Ptr} {Q : Unit → EvpBooks → Prop}
    (h : Holds books.log (held .ctx ctx + S))
    (hQ : ∀ log phase, Holds log S → Q () ⟨log, phase⟩) :
    evp.env.wp (evpCtxFree ctx) Q books :=
  wp_release_custody h (by cases ctx <;> rfl) (by cases ctx <;> trivial)
    (fun _ => by cases ctx <;> rfl) fun _ => hQ

end Calls

/-! ## The calls on a backend -/

section Uses

variable {books : EvpBooks} {S : Multiset Resource} {state : Backend}

theorem wp_encryptOnce_custody {out tag : List UInt8}
    {Q : Int × List UInt8 × List UInt8 → EvpBooks → Prop} (hr : Ready state)
    (h : Holds books.log S) (hout : state.messageSize.toNat ≤ out.length)
    (htag : tag.length = tagSize)
    (hQ : ∀ rc out' tag' log phase, out'.length = out.length → tag'.length = tagSize →
      Holds log S → Q (rc, out', tag') ⟨log, phase⟩) :
    evp.env.wp (encryptOnce state out tag) Q books := by
  unfold encryptOnce
  rw [Env.wp_bind]
  refine wp_evpCtxNew_custody h fun ctx log phase hlog => ?_
  rcases ctx with _ | ctx
  · simp only
    rw [Env.wp_bind]
    exact wp_evpCtxFree_custody hlog fun log' phase' => hQ _ _ _ log' phase' rfl htag
  · simp only
    rw [Env.wp_bind]
    refine wp_encryptWith_custody hr hlog (by simp [held]) hout htag
      fun rc out' tag' phase' hlen' htag' => ?_
    rw [Env.wp_bind]
    exact wp_evpCtxFree_custody hlog fun log' phase'' => hQ rc out' tag' log' phase'' hlen' htag'

theorem wp_decryptOnce_custody {out : List UInt8} {Q : Int × List UInt8 → EvpBooks → Prop}
    (hr : Ready state) (h : Holds books.log S) (hout : state.messageSize.toNat ≤ out.length)
    (hQ : ∀ rc out' log phase, out'.length = out.length → Holds log S →
      Q (rc, out') ⟨log, phase⟩) : evp.env.wp (decryptOnce state out) Q books := by
  unfold decryptOnce
  rw [Env.wp_bind]
  refine wp_evpCtxNew_custody h fun ctx log phase hlog => ?_
  rcases ctx with _ | ctx
  · simp only
    rw [Env.wp_bind]
    exact wp_evpCtxFree_custody hlog fun log' phase' => hQ _ _ log' phase' rfl
  · simp only
    rw [Env.wp_bind]
    refine wp_decryptWith_custody hr hlog (by simp [held]) hout fun rc out' phase' hlen' => ?_
    rw [Env.wp_bind]
    exact wp_evpCtxFree_custody hlog fun log' phase'' => hQ rc out' log' phase'' hlen'

theorem Ready.withOutput (hr : Ready state) {out : List UInt8}
    (hout : out.length = state.output.bytes.length) : Ready (state.withOutput out) :=
  { hr with output := hr.output.trans_eq hout.symm }

theorem Ready.withTag (hr : Ready state) {tag : List UInt8} (htag : tag.length = tagSize) :
    Ready { state with tag := tag } := { hr with tag := htag }

/-- What a call on `state` leaves of it, and of what is held. -/
structure Carried (S : Multiset Resource) (state state' : Backend) (log : List (Act Resource)) :
    Prop where
  ready : Ready state'
  self : state'.self = state.self
  held : backendHeld state' = backendHeld state
  holds : Holds log (backendHeld state + S)

theorem Carried.refl {log : List (Act Resource)} (hr : Ready state)
    (h : Holds log (backendHeld state + S)) : Carried S state state log := ⟨hr, rfl, rfl, h⟩

theorem wp_verify_custody {unset : List UInt8} {Q : Int × Backend → EvpBooks → Prop}
    (hr : Ready state) (h : Holds books.log (backendHeld state + S))
    (hunset : unset.length = tagSize)
    (hQ : ∀ rc state' log phase, Carried S state state' log → Q (rc, state') ⟨log, phase⟩) :
    evp.env.wp (ofbBackendVerify state unset) Q books := by
  unfold ofbBackendVerify
  rw [Env.wp_bind]
  refine wp_encryptOnce_custody hr h hr.output hunset fun rc out tag log phase hlen _ hlog => ?_
  have hr₁ := hr.withOutput hlen
  simp only
  split_ifs with hbad
  · exact hQ _ _ _ _ ⟨hr₁, rfl, rfl, hlog⟩
  rw [Env.wp_bind]
  refine wp_decryptOnce_custody hr₁ hlog hr₁.output fun rc' out' log' phase' hlen' hlog' => ?_
  have hr₂ := hr₁.withOutput hlen'
  simp only
  split_ifs with hbad'
  · exact hQ _ _ _ _ ⟨hr₂, rfl, rfl, hlog'⟩
  · exact hQ _ _ _ _ ⟨hr₂, rfl, rfl, hlog'⟩

theorem wp_iteration_custody {Q : Int × Backend → EvpBooks → Prop} (hr : Ready state)
    (h : Holds books.log (backendHeld state + S))
    (hQ : ∀ rc state' phase, Carried S state state' books.log →
      Q (rc, state') ⟨books.log, phase⟩) : evp.env.wp (iteration state) Q books := by
  obtain ⟨ctx, hctx⟩ := Option.ne_none_iff_exists'.1 hr.ctx
  have hmem : Resource.ctx ctx ∈ backendHeld state + S := by simp [backendHeld, hctx, held]
  unfold iteration
  rcases state.operation with _ | _
  · simp only [hctx]
    rw [Env.wp_bind]
    refine wp_encryptWith_custody hr h hmem hr.output hr.tag
      fun rc out tag phase hlen htag => ?_
    exact hQ _ _ _ ⟨(hr.withOutput hlen).withTag htag, rfl, rfl, h⟩
  · simp only [hctx]
    rw [Env.wp_bind]
    refine wp_decryptWith_custody hr h hmem hr.output fun rc out phase hlen => ?_
    exact hQ _ _ _ ⟨hr.withOutput hlen, rfl, rfl, h⟩

theorem Carried.trans {s₁ s₂ s₃ : Backend} {log log' : List (Act Resource)}
    (h₁ : Carried S s₁ s₂ log) (h₂ : Carried S s₂ s₃ log') : Carried S s₁ s₃ log' :=
  ⟨h₂.ready, h₂.self.trans h₁.self, h₂.held.trans h₁.held, h₁.held ▸ h₂.holds⟩

theorem wp_batch_custody {iterations : ℕ} {Q : Int × Backend → EvpBooks → Prop} (hr : Ready state)
    (h : Holds books.log (backendHeld state + S))
    (hQ : ∀ rc state' phase, Carried S state state' books.log →
      Q (rc, state') ⟨books.log, phase⟩) : evp.env.wp (batch state iterations) Q books := by
  induction iterations generalizing state books with
  | zero => exact hQ 0 state books.phase (.refl hr h)
  | succ iterations ih =>
    rw [batch_succ, Env.wp_bind]
    refine wp_iteration_custody hr h fun rc state₁ phase hc₁ => ?_
    simp only
    split_ifs with hrc
    · exact hQ _ _ _ hc₁
    · exact ih hc₁.ready (hc₁.held.symm ▸ hc₁.holds) fun rc' state₂ phase' hc₂ =>
        hQ _ _ _ (hc₁.trans hc₂)

theorem wp_runBatch_custody {iterations : UInt64} {Q : Int × Backend → EvpBooks → Prop}
    (hr : Ready state) (h : Holds books.log (backendHeld state + S))
    (hQ : ∀ rc state' phase, Carried S state state' books.log →
      Q (rc, state') ⟨books.log, phase⟩) :
    evp.env.wp (ofbBackendRunBatch state iterations) Q books := by
  unfold ofbBackendRunBatch
  rw [Env.wp_bind]
  refine wp_batch_custody hr h fun rc state' phase hc => ?_
  simp only
  by_cases hrc : rc ≠ 0
  · rw [if_pos hrc]
    exact hQ _ _ _ hc
  · rw [if_neg hrc]
    exact hQ _ _ _ ⟨{ hc.ready with }, hc.self, hc.held, hc.holds⟩

theorem wp_destroy_custody {Q : Unit → EvpBooks → Prop}
    (h : Holds books.log (backendHeld state + S))
    (hQ : ∀ log phase, Holds log S → Q () ⟨log, phase⟩) :
    evp.env.wp (ofbBackendDestroy (some state)) Q books := by
  unfold ofbBackendDestroy
  simp only [backendHeld, add_assoc] at h
  rw [Env.wp_bind]
  refine wp_evpCtxFree_custody h fun log₁ phase₁ h₁ => ?_
  rw [Env.wp_bind]
  refine wp_memFree_custody h₁ fun log₂ phase₂ h₂ => ?_
  rw [Env.wp_bind]
  refine wp_memFree_custody h₂ fun log₃ phase₃ h₃ => ?_
  rw [Env.wp_bind]
  refine wp_memFree_custody h₃ fun log₄ phase₄ h₄ => ?_
  rw [Env.wp_bind]
  refine wp_memFree_custody h₄ fun log₅ phase₅ h₅ => ?_
  exact wp_memFree_custody h₅ hQ

end Uses

/-! ## Creation -/

section Create

variable {books : EvpBooks} {S : Multiset Resource} {params : Params}

/-- What `create` allocates for `params` can be used if none of it is NULL. -/
structure Blank (params : Params) (state : Backend) : Prop where
  allocated : Allocated params state
  key : state.key.length = 32
  nonce : state.nonce.length = nonceSize
  tag : state.tag.length = tagSize
  aad : state.aad.ptr ≠ none → params.aadSize.toNat ≤ state.aad.bytes.length

theorem withTag_ne_zero {n : UInt64} (h : ¬ n > intMax) : n + 16 ≠ 0 := by
  intro h0
  have hle := toNat_le_withTag h
  have hmax : intMax.toNat = 2147483647 := rfl
  have htag : (16 : UInt64).toNat = 16 := rfl
  have hsum := UInt64.toNat_add n 16
  rw [gt_iff_lt, UInt64.lt_iff_toNat_lt, hmax] at h
  rw [h0, UInt64.toNat_zero, htag] at hsum
  omega

theorem length_zeroed {size : UInt64} {ptr : Option Ptr} (h : (zeroed size ptr).ptr ≠ none) :
    (zeroed size ptr).bytes.length = size.toNat := by
  rcases ptr with _ | ptr
  · exact absurd rfl h
  · exact length_zeros _

theorem zeroed_ptr (size : UInt64) (ptr : Option Ptr) : (zeroed size ptr).ptr = ptr := by
  cases ptr <;> rfl

theorem wp_allocate_custody {self : Ptr} {Q : Backend → EvpBooks → Prop}
    (hmax : ¬ params.messageSize > intMax) (h : Holds books.log (held .memory (some self) + S))
    (hQ : ∀ state log phase, Blank params state → Holds log (backendHeld state + S) →
      Q state ⟨log, phase⟩) : evp.env.wp (allocate self params) Q books := by
  unfold allocate
  rw [Env.wp_bind]
  refine wp_evpCtxNew_custody h fun ctx log₁ phase₁ h₁ => ?_
  rw [Env.wp_bind]
  refine wp_calloc_custody h₁ (orOne_ne_zero _) fun aad log₂ phase₂ h₂ => ?_
  rw [Env.wp_bind]
  refine wp_malloc_custody h₂ (orOne_ne_zero _) fun plaintext log₃ phase₃ h₃ => ?_
  rw [Env.wp_bind]
  refine wp_malloc_custody h₃ (withTag_ne_zero hmax) fun ciphertext log₄ phase₄ h₄ => ?_
  rw [Env.wp_bind]
  refine wp_malloc_custody h₄ (withTag_ne_zero hmax) fun output log₅ phase₅ h₅ => ?_
  refine hQ _ log₅ phase₅ ⟨⟨⟨rfl, rfl, rfl, rfl⟩, fun h => ?_, fun h => ?_, fun h => ?_⟩,
    rfl, rfl, rfl, fun h => ?_⟩ ?_
  · exact buffer_room h
  · exact (length_of_buffer h).symm ▸ toNat_le_withTag hmax
  · exact (length_of_buffer h).symm ▸ toNat_le_withTag hmax
  · exact (length_zeroed h).symm ▸ toNat_le_orOne _
  · have hheld : held .memory (Block.buffer output).ptr
        + (held .memory (Block.buffer ciphertext).ptr + (held .memory (Block.buffer plaintext).ptr
        + (held .memory aad + (held .ctx ctx + (held .memory (some self) + S)))))
        = held .ctx ctx + (held .memory aad + (held .memory (Block.buffer plaintext).ptr
        + (held .memory (Block.buffer ciphertext).ptr + (held .memory (Block.buffer output).ptr
        + held .memory (some self))))) + S := by
      abel
    rw [hheld] at h₅
    unfold backendHeld
    rw [zeroed_ptr]
    exact h₅

section FillInputs

variable (state : Backend) (params : Params)

@[simp] theorem fillInputs_aad : (state.fillInputs params).aad = state.aad := by
  simp only [Backend.fillInputs]

@[simp] theorem fillInputs_tag : (state.fillInputs params).tag = state.tag := by
  simp only [Backend.fillInputs]

@[simp] theorem fillInputs_self : (state.fillInputs params).self = state.self := by
  simp only [Backend.fillInputs]

@[simp] theorem fillInputs_key_length :
    (state.fillInputs params).key.length = state.key.length := by
  simp only [Backend.fillInputs, length_fill]

@[simp] theorem fillInputs_nonce_length :
    (state.fillInputs params).nonce.length = state.nonce.length := by
  simp only [Backend.fillInputs, length_fill]

@[simp] theorem backendHeld_fillInputs :
    backendHeld (state.fillInputs params) = backendHeld state := by
  simp only [backendHeld, fillInputs_ctx, fillInputs_aad, fillInputs_plaintext_ptr,
    fillInputs_ciphertext, fillInputs_output, fillInputs_self]

end FillInputs

/-- Filled in, what `create` has allocated is ready to encrypt. -/
theorem Blank.ready {state : Backend} (hb : Blank params state)
    (hmax : ¬ (params.messageSize > intMax ∨ params.aadSize > intMax))
    (hnull : ¬ (state.cipher = none ∨ state.ctx = none ∨ state.aad.ptr = none
      ∨ state.plaintext.ptr = none ∨ state.ciphertext.ptr = none ∨ state.output.ptr = none)) :
    Ready (state.fillInputs params) := by
  simp only [not_or, gt_iff_lt, UInt64.not_lt] at hmax hnull
  obtain ⟨hcipher, hctx, haad, hplain, hct, hout⟩ := hnull
  obtain ⟨⟨⟨-, -, hmessage, haadSize⟩, hp, hc, ho⟩, hkey, hnonce, htag, ha⟩ := hb
  constructor
  · rw [fillInputs_cipher]
    exact hcipher
  · rw [fillInputs_ctx]
    exact hctx
  · rw [fillInputs_key_length]
    exact hkey
  · rw [fillInputs_nonce_length]
    exact hnonce
  · rw [fillInputs_tag]
    exact htag
  · rw [fillInputs_aadSize, haadSize, fillInputs_aad]
    exact ha haad
  · rw [fillInputs_messageSize, hmessage, fillInputs_plaintext_length]
    exact hp hplain
  · rw [fillInputs_messageSize, hmessage, fillInputs_ciphertext]
    exact hc hct
  · rw [fillInputs_messageSize, hmessage, fillInputs_output]
    exact ho hout
  · rw [fillInputs_aadSize, haadSize]
    exact hmax.2
  · rw [fillInputs_messageSize, hmessage]
    exact hmax.1

theorem wp_setUp_custody {self : Ptr} {cell : Option Cell} {Q : Int × Option Cell → EvpBooks → Prop}
    (hmax : ¬ (params.messageSize > intMax ∨ params.aadSize > intMax))
    (h : Holds books.log (held .memory (some self) + S))
    (hok : ∀ state log phase, Ready state → Holds log (backendHeld state + S) →
      Q (0, some (some state)) ⟨log, phase⟩)
    (hfail : ∀ log phase, Holds log S → Q (-1, cell) ⟨log, phase⟩) :
    evp.env.wp (setUp self params cell) Q books := by
  unfold setUp
  rw [Env.wp_bind]
  refine wp_allocate_custody (fun h => hmax (.inl h)) h fun state log₁ phase₁ hb h₁ => ?_
  by_cases hnull : state.cipher = none ∨ state.ctx = none ∨ state.aad.ptr = none
      ∨ state.plaintext.ptr = none ∨ state.ciphertext.ptr = none ∨ state.output.ptr = none
  · rw [if_pos hnull, Env.wp_bind]
    exact wp_destroy_custody h₁ hfail
  rw [if_neg hnull]
  have hr := hb.ready hmax hnull
  rw [← backendHeld_fillInputs state params] at h₁
  generalize state.fillInputs params = filled at hr h₁
  rw [Env.wp_bind]
  refine wp_encryptOnce_custody hr h₁ hr.ciphertext hr.tag
    fun rc out tag log₂ phase₂ hlen htag h₂ => ?_
  have h₃ : Holds log₂ (backendHeld { filled with
      ciphertext := ⟨filled.ciphertext.ptr, out⟩, tag := tag } + S) := h₂
  by_cases hrc : rc ≠ 0
  · simp only [if_pos hrc]
    rw [Env.wp_bind]
    exact wp_destroy_custody h₃ hfail
  · simp only [if_neg hrc]
    exact hok _ log₂ phase₂
      { hr with tag := htag, ciphertext := hr.ciphertext.trans_eq hlen.symm } h₃

theorem wp_create_custody {cell : Option Cell} {params : Option Params}
    {Q : Int × Option Cell → EvpBooks → Prop} (h : Holds books.log S)
    (hok : ∀ state log phase, Ready state → Holds log (backendHeld state + S) →
      Q (0, some (some state)) ⟨log, phase⟩)
    (hfail : ∀ log phase, Holds log S → Q (-1, cell) ⟨log, phase⟩) :
    evp.env.wp (ofbBackendCreate params cell) Q books := by
  rcases params with _ | params
  · exact hfail _ _ h
  rcases cell with _ | cell
  · exact hfail _ _ h
  unfold ofbBackendCreate
  simp only
  by_cases hmax : params.messageSize > intMax ∨ params.aadSize > intMax
  · rw [if_pos hmax]
    exact hfail _ _ h
  rw [if_neg hmax, Env.wp_bind]
  refine wp_acquire_custody id h rfl trivial (fun self => by cases self <;> rfl)
    fun self log phase hlog => ?_
  rcases self with _ | self
  · exact hfail log phase (by simpa [held] using hlog)
  · exact wp_setUp_custody hmax hlog hok hfail

end Create

/-- Between calls a backend is ready, and holds all that is held. -/
theorem implementation_sound : implementation.Sound evp.env (fun books => Holds books.log 0)
    (fun state books => Ready state ∧ Holds books.log (backendHeld state))
    (fun state books => Holds books.log (backendHeld state)) where
  create params books h := by
    change evp.env.wp (ofbBackendCreate (some params) (some none)) _ books
    refine wp_create_custody (S := 0) h (fun state log phase hr hlog => ?_) ?_
    · rw [add_zero] at hlog
      exact ⟨hr, hlog⟩
    · exact fun log phase hlog => hlog
  verify state unset books hunset hown := by
    obtain ⟨hr, h⟩ := hown
    rw [← add_zero (backendHeld state)] at h
    refine wp_verify_custody hr h hunset fun rc state' log phase hc => ⟨hc.self, ?_⟩
    have h' := hc.held ▸ hc.holds
    rw [add_zero] at h'
    split_ifs with hrc
    · exact ⟨hc.ready, h'⟩
    · exact h'
  runBatch state iterations books hown := by
    obtain ⟨hr, h⟩ := hown
    rw [← add_zero (backendHeld state)] at h
    refine wp_runBatch_custody hr h fun rc state' phase hc => ⟨hc.self, ?_⟩
    have h' := hc.held ▸ hc.holds
    rw [add_zero] at h'
    split_ifs with hrc
    · exact ⟨hc.ready, h'⟩
    · exact h'
  abandon state books hown := hown.2
  destroy state books h := by
    rw [← add_zero (backendHeld state)] at h
    exact wp_destroy_custody h fun log phase hlog => hlog
  destroy_none books := rfl

/-! ## A backend from its creation to its destruction -/

/-- The arrays a sequence of calls finds on the stack have the size of a tag. -/
def Sized (uses : List Use) : Prop := ∀ unset, Use.verify unset ∈ uses → unset.length = tagSize

theorem wp_useAll_custody {uses : List Use} {state : Backend} {S : Multiset Resource}
    {books : EvpBooks} {Q : List Int × Backend → EvpBooks → Prop} (hr : Ready state)
    (h : Holds books.log (backendHeld state + S)) (huses : Sized uses)
    (hQ : ∀ rcs state' log phase, Carried S state state' log → Q (rcs, state') ⟨log, phase⟩) :
    evp.env.wp (useAll state uses) Q books := by
  induction uses generalizing state books Q with
  | nil => exact hQ [] state books.log books.phase (.refl hr h)
  | cons use uses ih =>
    unfold useAll
    have hrest : Sized uses := fun unset hu => huses unset (List.mem_cons_of_mem _ hu)
    have hnext : ∀ rc state₁ log phase, Carried S state state₁ log →
        evp.env.wp (useAll state₁ uses >>= fun out => pure (rc :: out.1, out.2)) Q
          ⟨log, phase⟩ := by
      intro rc state₁ log phase hc
      rw [Env.wp_bind]
      exact ih hc.ready (hc.held.symm ▸ hc.holds) hrest fun rcs state₂ log' phase' hc' =>
        hQ _ _ _ _ (hc.trans hc')
    rw [Env.wp_bind]
    cases use with
    | verify unset => exact wp_verify_custody hr h (huses unset List.mem_cons_self) hnext
    | runBatch iterations =>
      exact wp_runBatch_custody hr h fun rc state₁ phase hc => hnext rc state₁ books.log phase hc

/-- Calls on a backend, and its destruction. -/
def useAndDestroy (state : Backend) (uses : List Use) : Prog Evp (List Int) := do
  let (rcs, state) ← useAll state uses
  ofbBackendDestroy (some state)
  pure rcs

/-- Whatever fails: each call is made on objects that are held and where the protocol of its context
allows it; a `create` that fails has released once all it acquired and has not changed `*backend`,
and when it succeeds, all it and any calls on the backend acquired has been released once after
`ofb_backend_destroy`. -/
theorem backend_custody (params : Option Params) (cell : Option Cell)
    (phase : Resource → Progress) {t : Trace Evp} {out : Int × Option Cell} {books : EvpBooks}
    (hrun : (ofbBackendCreate params cell).Runs t out) (hpath : evp.env.Path ⟨[], phase⟩ t books) :
    evp.env.Safe ⟨[], phase⟩ t
      ∧ ((out = (-1, cell) ∧ ReleasedOnce books.log) ∨ ∃ state, out = (0, some (some state))
        ∧ ∀ uses t' rcs books', Sized uses → (useAndDestroy state uses).Runs t' rcs →
          evp.env.Path books t' books' → evp.env.Safe books t' ∧ ReleasedOnce books'.log) := by
  have hcreate : evp.env.wp (ofbBackendCreate params cell) (fun out books =>
      (out = (-1, cell) ∧ Holds books.log 0) ∨ ∃ state, out = (0, some (some state))
        ∧ Ready state ∧ Holds books.log (backendHeld state + 0)) ⟨[], phase⟩ := by
    refine wp_create_custody (S := 0) .nil (fun state log phase hr h => ?_) fun log phase h => ?_
    · exact .inr ⟨state, rfl, hr, h⟩
    · exact .inl ⟨rfl, h⟩
  refine ⟨Env.wp_safe _ hcreate hrun, ?_⟩
  rcases Env.wp_sound _ hcreate hrun hpath with ⟨rfl, h⟩ | ⟨state, rfl, hr, h⟩
  · exact .inl ⟨rfl, h.releasedOnce⟩
  · refine .inr ⟨state, rfl, fun uses t' rcs books' huses hrun' hpath' => ?_⟩
    have hdestroy : evp.env.wp (useAndDestroy state uses) (fun _ books => Holds books.log 0)
        books := by
      unfold useAndDestroy
      rw [Env.wp_bind]
      refine wp_useAll_custody hr h huses fun rcs state' log phase hc => ?_
      simp only
      rw [Env.wp_bind]
      exact wp_destroy_custody (hc.held.symm ▸ hc.holds) fun log phase h => h
    exact ⟨Env.wp_safe _ hdestroy hrun', (Env.wp_sound _ hdestroy hrun' hpath').releasedOnce⟩

/-! ## A library in which nothing fails -/

def Resource.address : Resource → ℕ
  | .memory p => p
  | .ctx p => p

/-- The answer of a data call that copies its input. -/
def copied (room : ℕ) (input : List UInt8) : Written room :=
  if h : input.length ≤ room then ⟨1, input.length, input, h⟩ else nothing room 0

theorem copied_len {room : ℕ} {input : List UInt8} (h : (copied room input).result = 1) :
    (copied room input).len = input.length := by
  unfold copied at h ⊢
  split_ifs at h ⊢ with hroom
  · rfl
  · simp [nothing] at h

/-- The identity as a cipher; an object is handed out at an address above all others. -/
def identityLibrary (books : EvpBooks) : (call : Evp.Call) → Evp.Resp call
  | .callocState => some (nextAddress Resource.address books.log)
  | .calloc _ => some (nextAddress Resource.address books.log)
  | .malloc size => some (.zeros size.toNat (nextAddress Resource.address books.log))
  | .memFree _ => ()
  | .ctxNew => some (nextAddress Resource.address books.log)
  | .ctxFree _ => ()
  | .initCipher _ _ _ => (1 : Int)
  | .setIvLen _ _ => (1 : Int)
  | .initKey _ _ _ _ => (1 : Int)
  | .updateAad _ _ _ => (1 : Int)
  | .update _ _ room input => copied room input
  | .final _ _ room => nothing room 1
  | .getTag _ tag => ⟨1, tag⟩
  | .setTag _ _ => (1 : Int)

theorem identityLibrary_step (books : EvpBooks) (call : Evp.Call) :
    evp.env.step books call (evp.handler identityLibrary books call).1
      (evp.handler identityLibrary books call).2 := by
  have hfresh : ∀ r : Resource, nextAddress Resource.address books.log ≤ r.address →
      FreshActs books.log [.acquire r] := fun r h => ⟨fresh_of_next_le h, trivial⟩
  refine Custody.handler_step (A := Evp) books call ?_ ?_
  · change answersOf call (identityLibrary books call)
    cases call with
    | update d ctx room input => exact copied_len
    | getTag ctx tag => rfl
    | _ => trivial
  · change FreshActs books.log (actsOf call (identityLibrary books call))
    cases call with
    | callocState => exact hfresh (.memory _) (le_refl _)
    | calloc size => exact hfresh (.memory _) (le_refl _)
    | malloc size => exact hfresh (.memory _) (le_refl _)
    | ctxNew => exact hfresh (.ctx _) (le_refl _)
    | memFree ptr => cases ptr <;> trivial
    | ctxFree ctx => cases ctx <;> trivial
    | _ => trivial

def copyingCreate : Trace Evp × (Int × Option Cell) × EvpBooks :=
  (ofbBackendCreate (some twoByteParams) (some none)).run (evp.handler identityLibrary)
    ⟨[], fun _ => .idle⟩

/-- The backend `create` makes of `twoByteParams` with that library. -/
def copyingBackend : Backend :=
  { twoByteBackend with
    tag := List.replicate tagSize 0
    ciphertext := ⟨some 4, [7, 38] ++ List.replicate 16 0⟩ }

def copyingUse : Trace Evp × List Int × EvpBooks :=
  (useAndDestroy copyingBackend [.verify (List.replicate tagSize 0), .runBatch 3]).run
    (evp.handler identityLibrary) copyingCreate.2.2

theorem backend_custody_twoBytes :
    copyingUse.2.1 = [0, 0] ∧ ReleasedOnce copyingUse.2.2.log := by
  have hpath : ∀ (α : Type) (p : Prog Evp α) books, evp.env.Path books
      (p.run (evp.handler identityLibrary) books).1
      (p.run (evp.handler identityLibrary) books).2.2 := fun α p books =>
    Env.path_run evp.env identityLibrary_step p books
  have hcreate : (ofbBackendCreate (some twoByteParams) (some none)).Runs copyingCreate.1
      copyingCreate.2.1 := Prog.runs_run _ _ _
  have hout : copyingCreate.2.1 = (0, some (some copyingBackend)) := by decide
  rcases (backend_custody _ _ _ hcreate (hpath _ _ _)).2 with ⟨h, -⟩ | ⟨state, h, hall⟩
  · exact absurd (hout.symm.trans h) (by decide)
  · cases hout.symm.trans h
    refine ⟨by decide, (hall _ _ _ _ ?_ (Prog.runs_run _ _ _) (hpath _ _ _)).2⟩
    rintro unset (_ | ⟨_, _ | ⟨_, h⟩⟩)
    · rfl
    · cases h

end OfbBench.Aead
