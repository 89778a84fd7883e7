import OfbBench.Lib.Custody
import OfbBench.Proofs.Linked
import OfbBench.Proofs.Resources

/-!
# The TLS backend keeps to its library's protocol

An SSL is given its BIOs once and then its side; its handshake is stepped until it is finished, and
each failed step is followed by `SSL_get_error` on what it returned; only then can it be asked for
what was negotiated, written to on the client's side and read from on the server's. After a fatal
error it is only freed, and its BIOs with it (`ssl`).

The backend keeps to that whatever the library answers, and gives back what it was given.
-/

namespace OfbBench.Tls

open Ledger

inductive Side
  | client
  | server
  deriving DecidableEq, Repr

/-- How far a connection has come: new, with its BIOs, in the handshake, after a step of it that did
not return 1, finished, or after an error. A BIO is `idle` until it is handed to an SSL. -/
inductive Stage
  | idle
  | wired
  | shaking (side : Side)
  | asked (side : Side) (result : Int)
  | ready (side : Side)
  | broken
  deriving DecidableEq, Repr

/-- A connection and the BIOs it was handed. -/
structure Session where
  bios : List Ptr
  stage : Stage
  deriving DecidableEq, Repr

def Session.blank : Session := ⟨[], .idle⟩

abbrev Sessions := Resource → Session

/-- The objects a call is made on. -/
def usesOf : Ssl.Call → List Resource
  | .memFree (some ptr) => [.memory ptr]
  | .ctxFree (some ctx) => [.ctx ctx]
  | .ctxConfig (some ctx) _ => [.ctx ctx]
  | .ctxSetVerify (some ctx) => [.ctx ctx]
  | .sslNew (some ctx) => [.ctx ctx]
  | .sslFree (some ssl) => [.ssl ssl]
  | .bioFree (some bio) => [.bio bio]
  | .setBio (some ssl) rbio wbio => [.ssl ssl, .bio rbio, .bio wbio]
  | .setConnectState (some ssl) => [.ssl ssl]
  | .setAcceptState (some ssl) => [.ssl ssl]
  | .doHandshake (some ssl) => [.ssl ssl]
  | .getError (some ssl) _ => [.ssl ssl]
  | .version (some ssl) => [.ssl ssl]
  | .cipherName (some ssl) => [.ssl ssl]
  | .write (some ssl) _ _ _ => [.ssl ssl]
  | .read (some ssl) _ _ => [.ssl ssl]
  | _ => []

/-- A call is made on no NULL, where it is in its turn; a write is of a record at most, all of it
inside the buffer it is from. -/
def asksOf (sessions : Sessions) : Ssl.Call → Prop
  | .malloc size => size ≠ 0
  | .ctxConfig ctx _ => ctx ≠ none
  | .ctxSetVerify ctx => ctx ≠ none
  | .sslNew ctx => ctx ≠ none
  | .bioFree (some bio) => (sessions (.bio bio)).stage = .idle
  | .setBio (some ssl) rbio wbio => (sessions (.ssl ssl)).stage = .idle
    ∧ (sessions (.bio rbio)).stage = .idle ∧ (sessions (.bio wbio)).stage = .idle
  | .setConnectState (some ssl) => (sessions (.ssl ssl)).stage = .wired
  | .setAcceptState (some ssl) => (sessions (.ssl ssl)).stage = .wired
  | .doHandshake (some ssl) => ∃ side, (sessions (.ssl ssl)).stage = .shaking side
  | .getError (some ssl) result => ∃ side, (sessions (.ssl ssl)).stage = .asked side result
  | .version (some ssl) => ∃ side, (sessions (.ssl ssl)).stage = .ready side
  | .cipherName (some ssl) => ∃ side, (sessions (.ssl ssl)).stage = .ready side
  | .write (some ssl) _ num data => (sessions (.ssl ssl)).stage = .ready .client
    ∧ 0 < num ∧ num ≤ recordSize ∧ data.length = num
  | .read (some ssl) _ num => (sessions (.ssl ssl)).stage = .ready .server ∧ 0 < num
  | .calloc => True
  | .memFree _ => True
  | .ctxNew => True
  | .ctxFree _ => True
  | .sslFree _ => True
  | .newBioPair => True
  | .bioFree none => True
  | _ => False

/-- An SSL with the BIOs it was handed. -/
def sslObjectsIn (sessions : Sessions) (ssl : Ptr) : List Resource :=
  (sessions (.ssl ssl)).bios.map .bio ++ [.ssl ssl]

/-- An SSL releases the BIOs it was handed when it is freed, or handed others. -/
def actsOf (sessions : Sessions) : (call : Ssl.Call) → Ssl.Resp call → List (Act Resource)
  | .calloc, some ptr => [.acquire (.memory ptr)]
  | .malloc _, some block => [.acquire (.memory block.ptr)]
  | .memFree (some ptr), _ => [.release (.memory ptr)]
  | .ctxNew, some ctx => [.acquire (.ctx ctx)]
  | .ctxFree (some ctx), _ => [.release (.ctx ctx)]
  | .sslNew _, some ssl => [.acquire (.ssl ssl)]
  | .sslFree (some ssl), _ => (sslObjectsIn sessions ssl).map .release
  | .newBioPair, some (bio₁, bio₂) => [.acquire (.bio bio₁), .acquire (.bio bio₂)]
  | .bioFree (some bio), _ => [.release (.bio bio)]
  | .setBio (some ssl) _ _, _ => ((sessions (.ssl ssl)).bios.map Resource.bio).map .release
  | _, _ => []

/-- An SSL at another stage. -/
def setStage (sessions : Sessions) (ssl : Ptr) (stage : Stage) : Sessions :=
  Function.update sessions (.ssl ssl) { sessions (.ssl ssl) with stage := stage }

/-- Where a step of the handshake leads. -/
def Stage.stepped : Stage → Int → Stage
  | .shaking side, result => if result = 1 then .ready side else .asked side result
  | _, _ => .broken

/-- Where an error leads. -/
def Stage.excused : Stage → Int → Stage
  | .asked side _, error =>
    if error = errorWantRead ∨ error = errorWantWrite then .shaking side else .broken
  | _, _ => .broken

def sessionsAfter (sessions : Sessions) : (call : Ssl.Call) → Ssl.Resp call → Sessions
  | .sslNew _, some ssl => Function.update sessions (.ssl ssl) .blank
  | .newBioPair, some (bio₁, bio₂) =>
    Function.update (Function.update sessions (.bio bio₁) .blank) (.bio bio₂) .blank
  | .setBio (some ssl) rbio wbio, _ =>
    Function.update (Function.update (Function.update sessions (.ssl ssl)
      ⟨if rbio = wbio then [rbio] else [rbio, wbio], .wired⟩) (.bio rbio) ⟨[], .wired⟩)
      (.bio wbio) ⟨[], .wired⟩
  | .setConnectState (some ssl), _ => setStage sessions ssl (.shaking .client)
  | .setAcceptState (some ssl), _ => setStage sessions ssl (.shaking .server)
  | .doHandshake (some ssl), result =>
    setStage sessions ssl ((sessions (.ssl ssl)).stage.stepped result)
  | .getError (some ssl) _, error =>
    setStage sessions ssl ((sessions (.ssl ssl)).stage.excused error)
  | .write (some ssl) _ num _, result =>
    setStage sessions ssl (if result = num then (sessions (.ssl ssl)).stage else .broken)
  | .read (some ssl) _ _, answer =>
    setStage sessions ssl (if answer.result ≤ 0 then .broken else (sessions (.ssl ssl)).stage)
  | _, _ => sessions

def ssl : Custody Ssl Resource Session where
  uses := usesOf
  asks := asksOf
  answers _ _ _ := True
  acts := actsOf
  after := sessionsAfter

abbrev SslBooks := Custody.Books Resource Session

/-! ## What is held -/

def sslHeldIn (sessions : Sessions) : Option Ptr → Multiset Resource
  | none => 0
  | some ssl => sslObjectsIn sessions ssl

def pairHeldIn (sessions : Sessions) (pair : TlsPair) : Multiset Resource :=
  sslHeldIn sessions pair.client + sslHeldIn sessions pair.server

def backendHeldIn (sessions : Sessions) (state : Backend) : Multiset Resource :=
  pairHeldIn sessions state.transferPair + (held .ctx state.clientCtx + (held .ctx state.serverCtx
    + (held .memory state.plaintext.ptr + (held .memory state.received.ptr
    + held .memory (some state.self)))))

/-- The objects of `S` are where they were. -/
def Frame (S : Multiset Resource) (sessions sessions' : Sessions) : Prop :=
  ∀ r ∈ S, sessions' r = sessions r

/-- Of all objects only an SSL may be at another stage. -/
structure Stirred (ssl : Ptr) (sessions sessions' : Sessions) : Prop where
  others : ∀ r, r ≠ .ssl ssl → sessions' r = sessions r
  bios : ∀ r, (sessions' r).bios = (sessions r).bios

section Sessions

variable {S T : Multiset Resource} {s₁ s₂ s₃ : Sessions} {p q : Ptr} {stage : Stage}

theorem Frame.refl : Frame S s₁ s₁ := fun _ _ => rfl

theorem Frame.trans (h₁ : Frame S s₁ s₂) (h₂ : Frame S s₂ s₃) : Frame S s₁ s₃ :=
  fun r hr => (h₂ r hr).trans (h₁ r hr)

theorem Frame.mono (h : Frame (T + S) s₁ s₂) : Frame S s₁ s₂ :=
  fun r hr => h r (Multiset.mem_add.2 (.inr hr))

theorem Stirred.refl : Stirred p s₁ s₁ := ⟨fun _ _ => rfl, fun _ => rfl⟩

theorem Stirred.trans (h₁ : Stirred p s₁ s₂) (h₂ : Stirred p s₂ s₃) : Stirred p s₁ s₃ :=
  ⟨fun r hr => (h₂.others r hr).trans (h₁.others r hr),
    fun r => (h₂.bios r).trans (h₁.bios r)⟩

theorem setStage_stage : (setStage s₁ p stage (.ssl p)).stage = stage := by
  unfold setStage
  rw [Function.update_self]

theorem stirred_setStage : Stirred p s₁ (setStage s₁ p stage) := by
  refine ⟨fun r hr => Function.update_of_ne hr _ _, fun r => ?_⟩
  unfold setStage
  by_cases hr : r = .ssl p
  · rw [hr, Function.update_self]
  · rw [Function.update_of_ne hr]

theorem Stirred.stage_of_ne (h : Stirred p s₁ s₂) (hne : q ≠ p) :
    (s₂ (.ssl q)).stage = (s₁ (.ssl q)).stage := by
  rw [h.others (.ssl q) (by simpa using hne)]

theorem Stirred.frame (h : Stirred p s₁ s₂) (hp : .ssl p ∉ S) : Frame S s₁ s₂ :=
  fun r hr => h.others r fun heq => hp (heq ▸ hr)

theorem sslHeldIn_congr {ssl : Option Ptr} (h : ∀ r, (s₂ r).bios = (s₁ r).bios) :
    sslHeldIn s₂ ssl = sslHeldIn s₁ ssl := by
  rcases ssl with _ | p
  · rfl
  · simp only [sslHeldIn, sslObjectsIn, h]

theorem pairHeldIn_congr {pair : TlsPair} (h : ∀ r, (s₂ r).bios = (s₁ r).bios) :
    pairHeldIn s₂ pair = pairHeldIn s₁ pair := by
  unfold pairHeldIn
  rw [sslHeldIn_congr h, sslHeldIn_congr h]

theorem mem_sslHeldIn : .ssl p ∈ sslHeldIn s₁ (some p) := by
  simp [sslHeldIn, sslObjectsIn]

/-- What a backend holds is read off the objects it holds. -/
theorem Frame.backendHeldIn_eq {state : Backend} (h : Frame (backendHeldIn s₁ state) s₁ s₂) :
    backendHeldIn s₂ state = backendHeldIn s₁ state := by
  have hssl : ∀ ssl, sslHeldIn s₁ ssl ≤ backendHeldIn s₁ state →
      sslHeldIn s₂ ssl = sslHeldIn s₁ ssl := by
    rintro (_ | p) hle
    · rfl
    · have hp := h (.ssl p) (Multiset.mem_of_le hle mem_sslHeldIn)
      simp only [sslHeldIn, sslObjectsIn, hp]
  have hclient := hssl state.transferPair.client
    ((Multiset.le_add_right _ _).trans (Multiset.le_add_right _ _))
  have hserver := hssl state.transferPair.server
    ((Multiset.le_add_left _ _).trans (Multiset.le_add_right _ _))
  simp only [backendHeldIn, pairHeldIn, hclient, hserver]

end Sessions

/-! ## The calls -/

section Calls

variable {books : SslBooks} {S : Multiset Resource} {p : Ptr}

theorem used_mem {call : Ssl.Call} {used : List Resource} (huses : usesOf call = used)
    (hused : ∀ r ∈ used, r ∈ S) : ∀ r ∈ ssl.uses call, r ∈ S := by
  change ∀ r ∈ usesOf call, r ∈ S
  rw [huses]
  exact hused

/-- A call on a held SSL that acquires and releases nothing. -/
theorem wp_onSsl {call : Ssl.Call} {Q : Ssl.Resp call → SslBooks → Prop}
    (h : Holds books.log S) (hp : .ssl p ∈ S) (huses : usesOf call = [.ssl p])
    (hasks : asksOf books.phase call) (hacts : ∀ answer, actsOf books.phase call answer = [])
    (hQ : ∀ answer, Q answer ⟨books.log, sessionsAfter books.phase call answer⟩) :
    ssl.env.wp (Prog.ask (A := Ssl) call) Q books := by
  have hused : ∀ r ∈ [Resource.ssl p], r ∈ S := by simpa using hp
  exact Custody.wp_neutral h (used_mem huses hused) hasks hacts fun answer _ => hQ answer

/-- A call on a held context. -/
theorem wp_onCtx {call : Ssl.Call} {ctx : Ptr} {Q : Ssl.Resp call → SslBooks → Prop}
    (h : Holds books.log S) (hctx : .ctx ctx ∈ S) (huses : usesOf call = [.ctx ctx])
    (hasks : asksOf books.phase call) (hacts : ∀ answer, actsOf books.phase call answer = [])
    (hafter : ∀ answer, sessionsAfter books.phase call answer = books.phase)
    (hQ : ∀ answer, Q answer books) : ssl.env.wp (Prog.ask (A := Ssl) call) Q books := by
  have hused : ∀ r ∈ [Resource.ctx ctx], r ∈ S := by simpa using hctx
  refine Custody.wp_neutral h (used_mem huses hused) hasks hacts fun answer _ => ?_
  change Q answer ⟨books.log, sessionsAfter books.phase call answer⟩
  rw [hafter]
  exact hQ answer

/-- An allocation that may fail. -/
theorem wp_acquire_session {call : Ssl.Call} (ptr : Ssl.Resp call → Option Ptr)
    (used : List Resource) {resource : Ptr → Resource} {Q : Ssl.Resp call → SslBooks → Prop}
    (h : Holds books.log S) (huses : usesOf call = used) (hused : ∀ r ∈ used, r ∈ S)
    (hasks : asksOf books.phase call)
    (hacts : ∀ answer, actsOf books.phase call answer
      = ((ptr answer).toList.map resource).map .acquire)
    (hQ : ∀ answer log, Holds log (held resource (ptr answer) + S) →
      Q answer ⟨log, sessionsAfter books.phase call answer⟩) :
    ssl.env.wp (Prog.ask (A := Ssl) call) Q books := by
  refine Custody.wp_acquires (fun answer => (ptr answer).toList.map resource) h
    (used_mem huses hused) hasks hacts fun answer log _ hlog => hQ answer log ?_
  cases hptr : ptr answer <;> simpa [held, hptr] using hlog

theorem wp_calloc_session {Q : Option Ptr → SslBooks → Prop} (h : Holds books.log S)
    (hQ : ∀ ptr log, Holds log (held .memory ptr + S) → Q ptr ⟨log, books.phase⟩) :
    ssl.env.wp calloc Q books :=
  wp_acquire_session id [] h rfl (by simp) trivial (fun ptr => by cases ptr <;> rfl) hQ

theorem wp_malloc_session {size : UInt64} {Q : Option (Block size.toNat) → SslBooks → Prop}
    (h : Holds books.log S) (hsize : size ≠ 0)
    (hQ : ∀ block log, Holds log (held .memory (Block.buffer block).ptr + S) →
      Q block ⟨log, books.phase⟩) : ssl.env.wp (malloc size) Q books :=
  wp_acquire_session (fun block => (Block.buffer block).ptr) [] h rfl (by simp) hsize
    (fun block => by cases block <;> rfl) hQ

theorem wp_sslCtxNew_session {Q : Option Ptr → SslBooks → Prop} (h : Holds books.log S)
    (hQ : ∀ ctx log, Holds log (held .ctx ctx + S) → Q ctx ⟨log, books.phase⟩) :
    ssl.env.wp sslCtxNew Q books :=
  wp_acquire_session id [] h rfl (by simp) trivial (fun ctx => by cases ctx <;> rfl) hQ

theorem not_mem_of_holds {log : List (Act Resource)} {r : Resource} (h : Holds log (r ::ₘ S)) :
    r ∉ S := (Multiset.nodup_cons.1 h.nodup).1

/-- A new SSL has no BIOs, and nothing that is held is touched. -/
theorem wp_sslNew_session {ctx : Ptr} {Q : Option Ptr → SslBooks → Prop} (h : Holds books.log S)
    (hctx : .ctx ctx ∈ S) (hnone : ∀ log, Holds log S → Q none ⟨log, books.phase⟩)
    (hsome : ∀ p log sessions, Holds log (.ssl p ::ₘ S) → .ssl p ∉ S →
      sessions (.ssl p) = .blank → Frame S books.phase sessions → Q (some p) ⟨log, sessions⟩) :
    ssl.env.wp (sslNew (some ctx)) Q books := by
  have hused : ∀ r ∈ [Resource.ctx ctx], r ∈ S := by simpa using hctx
  refine wp_acquire_session id _ h rfl hused (Option.some_ne_none ctx)
    (fun ssl => by cases ssl <;> rfl) fun ptr log hlog => ?_
  rcases ptr with _ | p
  · exact hnone log (by simpa [held] using hlog)
  · have hlog' : Holds log (.ssl p ::ₘ S) := hlog
    have hp := not_mem_of_holds hlog'
    refine hsome p log _ hlog' hp (Function.update_self _ _ _) fun r hr => ?_
    have hne : r ≠ .ssl p := fun heq => hp (heq ▸ hr)
    exact Function.update_of_ne hne _ _

/-- The release of what may be NULL. -/
theorem wp_release_session {call : Ssl.Call} (objects used : List Resource)
    {Q : Ssl.Resp call → SslBooks → Prop} (h : Holds books.log (objects + S))
    (huses : usesOf call = used) (hused : ∀ r ∈ used, r ∈ objects) (hasks : asksOf books.phase call)
    (hacts : ∀ answer, actsOf books.phase call answer = objects.map .release)
    (hafter : ∀ answer, sessionsAfter books.phase call answer = books.phase)
    (hQ : ∀ answer log, Holds log S → Q answer ⟨log, books.phase⟩) :
    ssl.env.wp (Prog.ask (A := Ssl) call) Q books := by
  have hused' : ∀ r ∈ used, r ∈ (objects : Multiset Resource) + S :=
    fun r hr => Multiset.mem_add.2 (.inl (hused r hr))
  refine Custody.wp_releases objects h (used_mem huses hused') hasks hacts
    fun answer log hlog => ?_
  change Q answer ⟨log, sessionsAfter books.phase call answer⟩
  rw [hafter]
  exact hQ answer log hlog

theorem wp_memFree_session {ptr : Option Ptr} {Q : Unit → SslBooks → Prop}
    (h : Holds books.log (held .memory ptr + S))
    (hQ : ∀ log, Holds log S → Q () ⟨log, books.phase⟩) : ssl.env.wp (memFree ptr) Q books := by
  rcases ptr with _ | ptr
  · exact wp_release_session [] [] h rfl (by simp) trivial (fun _ => rfl) (fun _ => rfl) fun _ => hQ
  · exact wp_release_session [.memory ptr] [.memory ptr] h rfl (by simp) trivial (fun _ => rfl)
      (fun _ => rfl) fun _ => hQ

theorem wp_sslCtxFree_session {ctx : Option Ptr} {Q : Unit → SslBooks → Prop}
    (h : Holds books.log (held .ctx ctx + S))
    (hQ : ∀ log, Holds log S → Q () ⟨log, books.phase⟩) : ssl.env.wp (sslCtxFree ctx) Q books := by
  rcases ctx with _ | ctx
  · exact wp_release_session [] [] h rfl (by simp) trivial (fun _ => rfl) (fun _ => rfl) fun _ => hQ
  · exact wp_release_session [.ctx ctx] [.ctx ctx] h rfl (by simp) trivial (fun _ => rfl)
      (fun _ => rfl) fun _ => hQ

theorem wp_bioFree_none_session {Q : Unit → SslBooks → Prop} (h : Holds books.log S)
    (hQ : ∀ log, Holds log S → Q () ⟨log, books.phase⟩) : ssl.env.wp (bioFree none) Q books :=
  wp_release_session [] [] (by simpa using h) rfl (by simp) trivial (fun _ => rfl) (fun _ => rfl)
    fun _ => hQ

theorem wp_sslFree_session {ptr : Option Ptr} {Q : Unit → SslBooks → Prop}
    (h : Holds books.log (sslHeldIn books.phase ptr + S))
    (hQ : ∀ log, Holds log S → Q () ⟨log, books.phase⟩) : ssl.env.wp (sslFree ptr) Q books := by
  rcases ptr with _ | p
  · exact wp_release_session [] [] h rfl (by simp) trivial (fun _ => rfl) (fun _ => rfl) fun _ => hQ
  · exact wp_release_session (sslObjectsIn books.phase p) [.ssl p] h rfl
      (by simp [sslObjectsIn]) trivial (fun _ => rfl) (fun _ => rfl) fun _ => hQ

/-- The objects of an answered `BIO_new_bio_pair`. -/
def bioPair : Option (Ptr × Ptr) → List Resource
  | none => []
  | some (bio₁, bio₂) => [.bio bio₁, .bio bio₂]

theorem wp_bioNewBioPair_session {Q : Option (Ptr × Ptr) → SslBooks → Prop} (h : Holds books.log S)
    (hnone : ∀ log, Holds log S → Q none ⟨log, books.phase⟩)
    (hsome : ∀ x y log sessions, Holds log (.bio x ::ₘ .bio y ::ₘ S) →
      sessions (.bio x) = .blank → sessions (.bio y) = .blank → Frame S books.phase sessions →
      Q (some (x, y)) ⟨log, sessions⟩) : ssl.env.wp bioNewBioPair Q books := by
  have hused : ∀ r ∈ ([] : List Resource), r ∈ S := by simp
  refine Custody.wp_acquires bioPair h (used_mem rfl hused) trivial (fun bios => ?_)
    fun bios log _ hlog => ?_
  · rcases bios with _ | ⟨x, y⟩ <;> rfl
  rcases bios with _ | ⟨x, y⟩
  · exact hnone log (by simpa [bioPair] using hlog)
  have hlog' : Holds log (.bio x ::ₘ .bio y ::ₘ S) := by
    have hpair : ((bioPair (some (x, y)) : List Resource) : Multiset Resource) + S
        = .bio x ::ₘ .bio y ::ₘ S := by
      rw [bioPair, ← Multiset.cons_coe, Multiset.cons_add, ← Multiset.cons_coe, Multiset.cons_add,
        Multiset.coe_nil, zero_add]
    rw [← hpair]
    exact hlog
  have hnodup := hlog'.nodup
  rw [Multiset.nodup_cons, Multiset.nodup_cons, Multiset.mem_cons, not_or] at hnodup
  obtain ⟨⟨hxy, hx⟩, hy, -⟩ := hnodup
  refine hsome x y log _ hlog' ?_ (Function.update_self _ _ _) fun r hr => ?_
  · exact (Function.update_of_ne hxy _ _).trans (Function.update_self _ _ _)
  · have hrx : r ≠ .bio x := fun heq => hx (heq ▸ hr)
    have hry : r ≠ .bio y := fun heq => hy (heq ▸ hr)
    exact (Function.update_of_ne hry _ _).trans (Function.update_of_ne hrx _ _)

/-- A new SSL is handed a BIO. -/
theorem wp_sslSetBio_session {x : Ptr} {Q : Unit → SslBooks → Prop}
    (h : Holds books.log (.ssl p ::ₘ .bio x ::ₘ S)) (hp : books.phase (.ssl p) = .blank)
    (hx : books.phase (.bio x) = .blank)
    (hQ : ∀ sessions, Holds books.log (sslHeldIn sessions (some p) + S) →
      (sessions (.ssl p)).stage = .wired → Frame S books.phase sessions →
      Q () ⟨books.log, sessions⟩) : ssl.env.wp (sslSetBio (some p) x x) Q books := by
  have hstage : ∀ {r}, books.phase r = .blank → (books.phase r).stage = .idle := by
    intro r hr
    rw [hr]
    rfl
  have hused : ∀ r ∈ [Resource.ssl p, .bio x, .bio x], r ∈ .ssl p ::ₘ .bio x ::ₘ S := by simp
  refine Custody.wp_neutral h (used_mem rfl hused) ⟨hstage hp, hstage hx, hstage hx⟩
    (fun _ => ?_) fun _ _ => ?_
  · change ((books.phase (.ssl p)).bios.map Resource.bio).map Act.release = []
    rw [hp]
    rfl
  have hnodup := h.nodup
  rw [Multiset.nodup_cons, Multiset.nodup_cons, Multiset.mem_cons, not_or] at hnodup
  obtain ⟨⟨hpx, hpS⟩, hxS, -⟩ := hnodup
  have hafter : sessionsAfter books.phase (.setBio (some p) x x) ()
      = Function.update (Function.update (Function.update books.phase (.ssl p) ⟨[x], .wired⟩)
        (.bio x) ⟨[], .wired⟩) (.bio x) ⟨[], .wired⟩ := by
    change Function.update (Function.update (Function.update books.phase (.ssl p)
      ⟨if x = x then [x] else [x, x], .wired⟩) (.bio x) ⟨[], .wired⟩) (.bio x) ⟨[], .wired⟩ = _
    rw [if_pos rfl]
  change Q () ⟨books.log, sessionsAfter books.phase (.setBio (some p) x x) ()⟩
  generalize sessionsAfter books.phase (.setBio (some p) x x) () = sessions at hafter ⊢
  have hself : sessions (.ssl p) = ⟨[x], .wired⟩ := by
    rw [hafter]
    simp
  refine hQ _ ?_ ?_ fun r hr => ?_
  · have hheld : sslHeldIn sessions (some p) = .bio x ::ₘ {.ssl p} := by
      simp only [sslHeldIn, sslObjectsIn, hself]
      rfl
    rw [hheld, Multiset.cons_add, Multiset.singleton_add, Multiset.cons_swap]
    exact h
  · rw [hself]
  · have hrp : r ≠ .ssl p := fun heq => hpS (heq ▸ hr)
    have hrx : r ≠ .bio x := fun heq => hxS (heq ▸ hr)
    rw [hafter, Function.update_of_ne hrx, Function.update_of_ne hrx,
      Function.update_of_ne hrp]

end Calls

/-! ## A pair of connections -/

section Pair

variable {books : SslBooks} {S : Multiset Resource} {c s : Ptr}

theorem wp_tlsPairDestroy_session {pair : TlsPair} {Q : TlsPair → SslBooks → Prop}
    (h : Holds books.log (pairHeldIn books.phase pair + S))
    (hQ : ∀ log, Holds log S → Q .null ⟨log, books.phase⟩) :
    ssl.env.wp (tlsPairDestroy pair) Q books := by
  unfold tlsPairDestroy
  unfold pairHeldIn at h
  rw [add_assoc] at h
  rw [Env.wp_bind]
  refine wp_sslFree_session h fun log₁ h₁ => ?_
  rw [Env.wp_bind]
  exact wp_sslFree_session h₁ hQ

/-- Giving up on a pair. -/
theorem wp_giveUp_session {pair : TlsPair} {Q : Int × TlsPair → SslBooks → Prop}
    (h : Holds books.log (pairHeldIn books.phase pair + S))
    (hfail : ∀ log, Holds log S → Q (-1, .null) ⟨log, books.phase⟩) :
    ssl.env.wp (do let pair ← tlsPairDestroy pair; pure (-1, pair)) Q books := by
  rw [Env.wp_bind]
  exact wp_tlsPairDestroy_session h hfail

/-- The stage of a side that has, or has not, finished its handshake. -/
def Stage.during (side : Side) (finished : Bool) : Stage :=
  if finished then .ready side else .shaking side

theorem wp_handshakeStep_session {p : Ptr} {side : Side} {finished : Bool}
    {Q : Int × Bool → SslBooks → Prop} (h : Holds books.log S) (hp : .ssl p ∈ S)
    (hat : (books.phase (.ssl p)).stage = .during side finished)
    (hok : ∀ finished' sessions, (sessions (.ssl p)).stage = .during side finished' →
      Stirred p books.phase sessions → Q (0, finished') ⟨books.log, sessions⟩)
    (hfail : ∀ sessions, Stirred p books.phase sessions →
      Q (-1, finished) ⟨books.log, sessions⟩) :
    ssl.env.wp (handshakeStep (some p) finished) Q books := by
  unfold handshakeStep
  cases finished with
  | true =>
    simp only [if_true]
    exact hok true books.phase hat .refl
  | false =>
    simp only [Bool.false_eq_true, if_false]
    have hshaking : (books.phase (.ssl p)).stage = .shaking side := hat
    rw [Env.wp_bind]
    refine wp_onSsl h hp rfl ⟨side, hshaking⟩ (fun _ => rfl) fun (result : Int) => ?_
    have hstepped : (setStage books.phase p ((books.phase (.ssl p)).stage.stepped result)
        (.ssl p)).stage = if result = 1 then .ready side else .asked side result := by
      rw [setStage_stage, hshaking]
      rfl
    by_cases hresult : result = 1
    · rw [if_pos hresult] at hstepped ⊢
      exact hok true _ hstepped stirred_setStage
    rw [if_neg hresult] at hstepped ⊢
    rw [Env.wp_bind]
    refine wp_onSsl h hp rfl ⟨side, hstepped⟩ (fun _ => rfl) fun (error : Int) => ?_
    have hstirred : Stirred p books.phase
        (setStage books.phase p ((books.phase (.ssl p)).stage.stepped result)) := stirred_setStage
    split_ifs with herror
    · exact hfail _ (hstirred.trans stirred_setStage)
    · refine hok false _ ?_ (hstirred.trans stirred_setStage)
      have hexcused : error = errorWantRead ∨ error = errorWantWrite := by
        by_contra hne
        exact herror (not_or.1 hne)
      refine setStage_stage.trans ?_
      change Stage.excused (setStage _ p _ (.ssl p)).stage error = _
      rw [hstepped]
      exact if_pos hexcused

/-- Both handshakes of a pair are finished. -/
def PairReady (sessions : Sessions) (pair : TlsPair) : Prop :=
  ∃ c s, pair = ⟨some c, some s⟩ ∧ c ≠ s ∧ (sessions (.ssl c)).stage = .ready .client
    ∧ (sessions (.ssl s)).stage = .ready .server

theorem mem_pairHeldIn {sessions : Sessions} :
    .ssl c ∈ pairHeldIn sessions ⟨some c, some s⟩ + S
      ∧ .ssl s ∈ pairHeldIn sessions ⟨some c, some s⟩ + S := by
  constructor
  · exact Multiset.mem_add.2 (.inl (Multiset.mem_add.2 (.inl mem_sslHeldIn)))
  · exact Multiset.mem_add.2 (.inl (Multiset.mem_add.2 (.inr mem_sslHeldIn)))

/-- What is held beside a pair is not of it. -/
theorem not_mem_of_pairHeldIn {log : List (Act Resource)} {sessions : Sessions} {p : Ptr}
    (h : Holds log (pairHeldIn sessions ⟨some c, some s⟩ + S)) (hp : p = c ∨ p = s) :
    .ssl p ∉ S := by
  have hdisjoint := Multiset.disjoint_of_nodup_add h.nodup
  have hmem : .ssl p ∈ pairHeldIn sessions ⟨some c, some s⟩ := by
    rcases hp with rfl | rfl
    · exact Multiset.mem_add.2 (.inl mem_sslHeldIn)
    · exact Multiset.mem_add.2 (.inr mem_sslHeldIn)
  exact Multiset.disjoint_left.1 hdisjoint hmem

theorem wp_handshakeLoop_session {attempts : ℕ} {clientFinished serverFinished : Bool}
    {Q : Int × TlsPair → SslBooks → Prop} (hne : c ≠ s)
    (h : Holds books.log (pairHeldIn books.phase ⟨some c, some s⟩ + S))
    (hc : (books.phase (.ssl c)).stage = .during .client clientFinished)
    (hs : (books.phase (.ssl s)).stage = .during .server serverFinished)
    (hok : ∀ sessions, Holds books.log (pairHeldIn sessions ⟨some c, some s⟩ + S) →
      PairReady sessions ⟨some c, some s⟩ → Frame S books.phase sessions →
      Q (0, ⟨some c, some s⟩) ⟨books.log, sessions⟩)
    (hfail : ∀ log sessions, Holds log S → Frame S books.phase sessions →
      Q (-1, .null) ⟨log, sessions⟩) :
    ssl.env.wp (handshakeLoop ⟨some c, some s⟩ attempts clientFinished serverFinished) Q books := by
  have hcS := not_mem_of_pairHeldIn h (.inl rfl)
  have hsS := not_mem_of_pairHeldIn h (.inr rfl)
  induction attempts generalizing books clientFinished serverFinished with
  | zero => exact wp_giveUp_session h fun log hlog => hfail log _ hlog .refl
  | succ attempts ih =>
    unfold handshakeLoop
    rw [Env.wp_bind]
    have hheld : ∀ sessions, (∀ r, (sessions r).bios = (books.phase r).bios) →
        Holds books.log (pairHeldIn sessions ⟨some c, some s⟩ + S) := fun sessions hb =>
      (pairHeldIn_congr hb).symm ▸ h
    refine wp_handshakeStep_session h mem_pairHeldIn.1 hc (fun clientFinished' φ₁ hc₁ hst₁ => ?_)
      fun φ₁ hst₁ => ?_
    swap
    · simp only [ne_eq, reduceCtorEq, not_false_eq_true, if_true, Int.reduceNeg]
      exact wp_giveUp_session (hheld φ₁ hst₁.bios) fun log hlog =>
        hfail log _ hlog (hst₁.frame hcS)
    simp only [ne_eq, not_true_eq_false, if_false]
    rw [Env.wp_bind]
    have hs₁ := (hst₁.stage_of_ne hne.symm).trans hs
    refine wp_handshakeStep_session (hheld φ₁ hst₁.bios) mem_pairHeldIn.2 hs₁
      (fun serverFinished' φ₂ hs₂ hst₂ => ?_) fun φ₂ hst₂ => ?_
    swap
    · simp only [reduceCtorEq, not_false_eq_true, if_true, Int.reduceNeg]
      exact wp_giveUp_session (hheld φ₂ fun r => (hst₂.bios r).trans (hst₁.bios r))
        fun log hlog => hfail log _ hlog ((hst₁.frame hcS).trans (hst₂.frame hsS))
    simp only [not_true_eq_false, if_false]
    have hc₂ := (hst₂.stage_of_ne hne).trans hc₁
    have hheld₂ := hheld φ₂ fun r => (hst₂.bios r).trans (hst₁.bios r)
    have hframe : Frame S books.phase φ₂ := (hst₁.frame hcS).trans (hst₂.frame hsS)
    split_ifs with hfinished
    · obtain ⟨rfl, rfl⟩ := hfinished
      exact hok φ₂ hheld₂ ⟨c, s, rfl, hne, hc₂, hs₂⟩ hframe
    · exact ih hheld₂ hc₂ hs₂ (fun sessions hlog hready hf => hok sessions hlog hready
        (hframe.trans hf)) fun log sessions hlog hf => hfail log sessions hlog (hframe.trans hf)

theorem sslHeldIn_blank {sessions : Sessions} (h : sessions (.ssl c) = .blank) :
    sslHeldIn sessions (some c) = {.ssl c} := by
  simp only [sslHeldIn, sslObjectsIn, h]
  rfl

/-- Giving up on SSL objects without BIOs. -/
theorem wp_giveUp_noBios_session {client server : Option Ptr} {Q : Int × TlsPair → SslBooks → Prop}
    (h : Holds books.log (pairHeldIn books.phase ⟨client, server⟩ + S))
    (hfail : ∀ log, Holds log S → Q (-1, .null) ⟨log, books.phase⟩) :
    ssl.env.wp (do
      bioFree none
      bioFree none
      let pair ← tlsPairDestroy ⟨client, server⟩
      pure (-1, pair)) Q books := by
  rw [Env.wp_bind]
  refine wp_bioFree_none_session h fun log₁ h₁ => ?_
  rw [Env.wp_bind]
  refine wp_bioFree_none_session h₁ fun log₂ h₂ => ?_
  exact wp_giveUp_session h₂ hfail

/-- What `tls_pair_create` does with two SSL objects. -/
theorem wp_connect_session {Q : Int × TlsPair → SslBooks → Prop} (hne : c ≠ s)
    (h : Holds books.log (.ssl s ::ₘ .ssl c ::ₘ S)) (hc : books.phase (.ssl c) = .blank)
    (hs : books.phase (.ssl s) = .blank)
    (hok : ∀ pair log sessions, Holds log (pairHeldIn sessions pair + S) →
      PairReady sessions pair → Frame S books.phase sessions → Q (0, pair) ⟨log, sessions⟩)
    (hfail : ∀ log sessions, Holds log S → Frame S books.phase sessions →
      Q (-1, .null) ⟨log, sessions⟩) :
    ssl.env.wp (do
      let bios ← newBios (some c) (some s)
      match bios with
      | none => do
        bioFree none
        bioFree none
        let pair ← tlsPairDestroy ⟨some c, some s⟩
        pure (-1, pair)
      | some (clientBio, serverBio) => do
        sslSetBio (some c) clientBio clientBio
        sslSetBio (some s) serverBio serverBio
        sslSetConnectState (some c)
        sslSetAcceptState (some s)
        handshakeLoop ⟨some c, some s⟩ 10000 false false) Q books := by
  have hnew : newBios (some c) (some s) = bioNewBioPair := rfl
  rw [hnew, Env.wp_bind]
  refine wp_bioNewBioPair_session h (fun log₁ h₁ => ?_) fun x y log₁ φ₁ h₁ hx hy hf₁ => ?_
  · refine wp_giveUp_noBios_session ?_ fun log hlog => hfail log _ hlog .refl
    have hpair : pairHeldIn books.phase ⟨some c, some s⟩ + S = .ssl s ::ₘ .ssl c ::ₘ S := by
      simp only [pairHeldIn, sslHeldIn_blank hc, sslHeldIn_blank hs, ← Multiset.singleton_add]
      abel
    rw [hpair]
    exact h₁
  have hc₁ := (hf₁ (.ssl c) (by simp)).trans hc
  have hs₁ := (hf₁ (.ssl s) (by simp)).trans hs
  have hf₁' : Frame S books.phase φ₁ := fun r hr => hf₁ r (by simp [hr])
  -- the client's BIO
  have hswap : Resource.bio x ::ₘ .bio y ::ₘ .ssl s ::ₘ .ssl c ::ₘ S
      = .ssl c ::ₘ .bio x ::ₘ .ssl s ::ₘ .bio y ::ₘ S := by
    simp only [← Multiset.singleton_add]
    abel
  rw [hswap] at h₁
  simp only
  rw [Env.wp_bind]
  refine wp_sslSetBio_session h₁ hc₁ hx fun φ₂ h₂ hwired₂ hf₂ => ?_
  have hs₂ := (hf₂ (.ssl s) (by simp)).trans hs₁
  have hy₂ := (hf₂ (.bio y) (by simp)).trans hy
  have hf₂' : Frame S books.phase φ₂ := hf₁'.trans fun r hr => hf₂ r (by simp [hr])
  -- the server's
  have hswap₂ : sslHeldIn φ₂ (some c) + (.ssl s ::ₘ .bio y ::ₘ S)
      = .ssl s ::ₘ .bio y ::ₘ (sslHeldIn φ₂ (some c) + S) := by
    rw [Multiset.add_cons, Multiset.add_cons]
  rw [hswap₂] at h₂
  rw [Env.wp_bind]
  refine wp_sslSetBio_session h₂ hs₂ hy₂ fun φ₃ h₃ hwired₃ hf₃ => ?_
  have hc₃ := hf₃ (.ssl c) (Multiset.mem_add.2 (.inl mem_sslHeldIn))
  have hclient : sslHeldIn φ₃ (some c) = sslHeldIn φ₂ (some c) := by
    simp only [sslHeldIn, sslObjectsIn, hc₃]
  have hpair : sslHeldIn φ₃ (some s) + (sslHeldIn φ₂ (some c) + S)
      = pairHeldIn φ₃ ⟨some c, some s⟩ + S := by
    simp only [pairHeldIn, hclient]
    abel
  rw [hpair] at h₃
  have hf₃' : Frame S books.phase φ₃ := hf₂'.trans hf₃.mono
  have hcS := not_mem_of_pairHeldIn h₃ (.inl rfl)
  have hsS := not_mem_of_pairHeldIn h₃ (.inr rfl)
  -- the sides
  rw [Env.wp_bind]
  refine wp_onSsl h₃ mem_pairHeldIn.1 rfl ((congrArg Session.stage hc₃).trans hwired₂)
    (fun _ => rfl) fun _ => ?_
  have hst₄ : Stirred c φ₃ (setStage φ₃ c (.shaking .client)) := stirred_setStage
  have h₄ : Holds log₁ (pairHeldIn (setStage φ₃ c (.shaking .client)) ⟨some c, some s⟩ + S) :=
    (pairHeldIn_congr hst₄.bios).symm ▸ h₃
  rw [Env.wp_bind]
  refine wp_onSsl h₄ mem_pairHeldIn.2 rfl ((hst₄.stage_of_ne hne.symm).trans hwired₃)
    (fun _ => rfl) fun _ => ?_
  have hst₅ : Stirred s (setStage φ₃ c (.shaking .client)) (setStage (setStage φ₃ c
      (.shaking .client)) s (.shaking .server)) := stirred_setStage
  have hf₅ : Frame S books.phase (setStage (setStage φ₃ c (.shaking .client)) s
      (.shaking .server)) := (hf₃'.trans (hst₄.frame hcS)).trans (hst₅.frame hsS)
  refine wp_handshakeLoop_session hne ((pairHeldIn_congr hst₅.bios).symm ▸ h₄) ?_ setStage_stage
    (fun sessions hlog hready hf => hok _ _ sessions hlog hready (hf₅.trans hf))
    fun log sessions hlog hf => hfail log sessions hlog (hf₅.trans hf)
  exact (hst₅.stage_of_ne hne).trans setStage_stage

/-- A pair is returned ready, or nothing of it is left. -/
theorem wp_tlsPairCreate_session {clientCtx serverCtx : Ptr} {Q : Int × TlsPair → SslBooks → Prop}
    (h : Holds books.log S) (hclient : .ctx clientCtx ∈ S) (hserver : .ctx serverCtx ∈ S)
    (hok : ∀ pair log sessions, Holds log (pairHeldIn sessions pair + S) →
      PairReady sessions pair → Frame S books.phase sessions → Q (0, pair) ⟨log, sessions⟩)
    (hfail : ∀ log sessions, Holds log S → Frame S books.phase sessions →
      Q (-1, .null) ⟨log, sessions⟩) :
    ssl.env.wp (tlsPairCreate (some clientCtx) (some serverCtx)) Q books := by
  unfold tlsPairCreate
  rw [Env.wp_bind]
  refine wp_sslNew_session h hclient (fun log₁ h₁ => ?_) fun c log₁ φ₁ h₁ hcS hc hf₁ => ?_
  · rw [Env.wp_bind]
    refine wp_sslNew_session h₁ hserver (fun log₂ h₂ => ?_) fun s log₂ φ₂ h₂ _ hs hf₂ => ?_
    · refine wp_giveUp_noBios_session ?_ fun log hlog => hfail log _ hlog .refl
      simpa [pairHeldIn, sslHeldIn] using h₂
    · refine wp_giveUp_noBios_session ?_ fun log hlog => hfail log _ hlog hf₂
      have hpair : pairHeldIn φ₂ ⟨none, some s⟩ + S = .ssl s ::ₘ S := by
        have hnone : sslHeldIn φ₂ none = 0 := rfl
        simp only [pairHeldIn, sslHeldIn_blank hs, hnone, zero_add, Multiset.singleton_add]
      rw [hpair]
      exact h₂
  · rw [Env.wp_bind]
    refine wp_sslNew_session h₁ (Multiset.mem_cons_of_mem hserver) (fun log₂ h₂ => ?_)
      fun s log₂ φ₂ h₂ hsS hs hf₂ => ?_
    · refine wp_giveUp_noBios_session ?_ fun log hlog => hfail log _ hlog hf₁
      have hpair : pairHeldIn φ₁ ⟨some c, none⟩ + S = .ssl c ::ₘ S := by
        have hnone : sslHeldIn φ₁ none = 0 := rfl
        simp only [pairHeldIn, sslHeldIn_blank hc, hnone, add_zero, Multiset.singleton_add]
      rw [hpair]
      exact h₂
    · have hf : Frame S books.phase φ₂ := hf₁.trans fun r hr => hf₂ r (Multiset.mem_cons_of_mem hr)
      have hne : c ≠ s := by
        rintro rfl
        exact hsS (Multiset.mem_cons_self _ _)
      exact wp_connect_session hne h₂ ((hf₂ (.ssl c) (by simp)).trans hc) hs
        (fun pair log sessions hlog hready hf' => hok pair log sessions hlog hready (hf.trans hf'))
        fun log sessions hlog hf' => hfail log sessions hlog (hf.trans hf')

theorem wp_tlsPairMatches_session {pair : TlsPair} {cipher : String} {Q : Bool → SslBooks → Prop}
    (h : Holds books.log (pairHeldIn books.phase pair + S)) (hready : PairReady books.phase pair)
    (hQ : ∀ matched, Q matched books) : ssl.env.wp (tlsPairMatches pair cipher) Q books := by
  obtain ⟨c, s, rfl, -, hc, hs⟩ := hready
  unfold tlsPairMatches
  rw [Env.wp_bind]
  refine wp_onSsl h mem_pairHeldIn.1 rfl ⟨_, hc⟩ (fun _ => rfl) fun v₁ => ?_
  split_ifs with h₁
  · exact hQ false
  rw [Env.wp_bind]
  refine wp_onSsl h mem_pairHeldIn.2 rfl ⟨_, hs⟩ (fun _ => rfl) fun v₂ => ?_
  split_ifs with h₂
  · exact hQ false
  rw [Env.wp_bind]
  refine wp_onSsl h mem_pairHeldIn.1 rfl ⟨_, hc⟩ (fun _ => rfl) fun c₁ => ?_
  split_ifs with h₃
  · exact hQ false
  rw [Env.wp_bind]
  exact wp_onSsl h mem_pairHeldIn.2 rfl ⟨_, hs⟩ (fun _ => rfl) fun c₂ => hQ _

end Pair

/-! ## Transfers -/

section Transfer

variable {books : SslBooks} {S : Multiset Resource} {c s : Ptr}

/-- The reads of a chunk leave the server ready, or end with an error. -/
theorem wp_readChunk_session {offset chunk received : ℕ} {bytes : List UInt8}
    {Q : Int × List UInt8 → SslBooks → Prop} (h : Holds books.log S) (hs : .ssl s ∈ S)
    (hready : (books.phase (.ssl s)).stage = .ready .server)
    (hok : ∀ bytes' sessions, (sessions (.ssl s)).stage = .ready .server →
      Stirred s books.phase sessions → Q (0, bytes') ⟨books.log, sessions⟩)
    (hfail : ∀ bytes' sessions, Stirred s books.phase sessions →
      Q (-1, bytes') ⟨books.log, sessions⟩) :
    ssl.env.wp (readChunk (some s) offset chunk received bytes) Q books := by
  induction received, bytes using readChunk.induct offset chunk generalizing books with
  | case1 received bytes hlt ih =>
    rw [readChunk, dif_pos hlt, Env.wp_bind]
    refine wp_onSsl h hs rfl ⟨hready, by omega⟩ (fun _ => rfl) fun answer => ?_
    have hst : Stirred s books.phase (setStage books.phase s
        (if answer.result ≤ 0 then .broken else (books.phase (.ssl s)).stage)) := stirred_setStage
    by_cases hr : answer.result ≤ 0
    · rw [dif_pos hr]
      exact hfail _ _ hst
    · rw [dif_neg hr]
      refine ih answer hr h ?_
        (fun bytes' sessions hready' hst' => hok _ _ hready' (hst.trans hst'))
        fun bytes' sessions hst' => hfail _ _ (hst.trans hst')
      change (setStage books.phase s _ (.ssl s)).stage = _
      rw [setStage_stage, if_neg hr]
      exact hready
  | case2 received bytes hge =>
    rw [readChunk, dif_neg hge]
    exact hok bytes books.phase hready .refl

theorem wp_transferFrom_session {plaintext : List UInt8} {messageSize offset : ℕ}
    {bytes : List UInt8} {Q : Int × List UInt8 → SslBooks → Prop}
    (hplain : messageSize ≤ plaintext.length)
    (h : Holds books.log (pairHeldIn books.phase ⟨some c, some s⟩ + S))
    (hready : PairReady books.phase ⟨some c, some s⟩)
    (hok : ∀ bytes' sessions, PairReady sessions ⟨some c, some s⟩ →
      Frame S books.phase sessions → (∀ r, (sessions r).bios = (books.phase r).bios) →
      Q (0, bytes') ⟨books.log, sessions⟩)
    (hfail : ∀ bytes' sessions, Frame S books.phase sessions →
      (∀ r, (sessions r).bios = (books.phase r).bios) → Q (-1, bytes') ⟨books.log, sessions⟩) :
    ssl.env.wp (transferFrom ⟨some c, some s⟩ plaintext messageSize offset bytes) Q books := by
  have hcS := not_mem_of_pairHeldIn h (.inl rfl)
  have hsS := not_mem_of_pairHeldIn h (.inr rfl)
  induction offset, bytes using transferFrom.induct messageSize generalizing books with
  | case1 offset bytes hlt chunk =>
    rename_i ih
    obtain ⟨c', s', hpair, hne, hc, hs⟩ := hready
    cases hpair
    rw [transferFrom, dif_pos hlt, Env.wp_bind]
    have hchunk : 0 < chunk ∧ chunk ≤ recordSize ∧ offset + chunk ≤ messageSize := by
      simp only [chunk, recordSize]
      omega
    have hdata : ((plaintext.drop offset).take chunk).length = chunk := by
      rw [List.length_take, List.length_drop]
      omega
    refine wp_onSsl h mem_pairHeldIn.1 rfl ⟨hc, hchunk.1, hchunk.2.1, hdata⟩ (fun _ => rfl)
      fun (result : Int) => ?_
    have hst : Stirred c books.phase (setStage books.phase c
        (if result = chunk then (books.phase (.ssl c)).stage else .broken)) := stirred_setStage
    by_cases hresult : result ≠ (chunk : ℕ)
    · rw [if_pos hresult]
      exact hfail _ _ (hst.frame hcS) hst.bios
    rw [if_neg hresult, Env.wp_bind]
    rw [not_not] at hresult
    have hc₁ : (setStage books.phase c (if result = chunk then (books.phase (.ssl c)).stage
        else .broken) (.ssl c)).stage = .ready .client := by
      rw [setStage_stage, if_pos hresult]
      exact hc
    have h₁ : Holds books.log (pairHeldIn (setStage books.phase c (if result = chunk then
        (books.phase (.ssl c)).stage else .broken)) ⟨some c, some s⟩ + S) :=
      (pairHeldIn_congr hst.bios).symm ▸ h
    refine wp_readChunk_session h₁ mem_pairHeldIn.2 ((hst.stage_of_ne hne.symm).trans hs)
      (fun bytes' φ₂ hs₂ hst₂ => ?_) fun bytes' φ₂ hst₂ => ?_
    · simp only [ne_eq, not_true_eq_false, if_false]
      have hb : ∀ r, (φ₂ r).bios = (books.phase r).bios :=
        fun r => (hst₂.bios r).trans (hst.bios r)
      have hf : Frame S books.phase φ₂ := (hst.frame hcS).trans (hst₂.frame hsS)
      refine ih result bytes' ((pairHeldIn_congr hb).symm ▸ h)
        ⟨c, s, rfl, hne, (hst₂.stage_of_ne hne).trans hc₁, hs₂⟩
        (fun bytes'' sessions hready' hf' hb' => hok _ _ hready' (hf.trans hf')
          fun r => (hb' r).trans (hb r))
        fun bytes'' sessions hf' hb' => hfail _ _ (hf.trans hf') fun r => (hb' r).trans (hb r)
    · simp only [ne_eq, reduceCtorEq, not_false_eq_true, if_true, Int.reduceNeg]
      exact hfail _ _ ((hst.frame hcS).trans (hst₂.frame hsS))
        fun r => (hst₂.bios r).trans (hst.bios r)
  | case2 offset bytes hge =>
    rw [transferFrom, dif_neg hge]
    exact hok bytes books.phase hready .refl fun _ => rfl

end Transfer

/-! ## The calls on a backend -/

/-- A backend that can be verified and run. -/
structure Able (sessions : Sessions) (state : Backend) : Prop where
  clientCtx : state.clientCtx ≠ none
  serverCtx : state.serverCtx ≠ none
  plaintext : state.messageSize.toNat ≤ state.plaintext.bytes.length
  pair : state.benchmark = .transfer → PairReady sessions state.transferPair

/-- What a call on `state` leaves: a backend that can be used if it returned 0, and all that it held
in any case. -/
structure Left (S : Multiset Resource) (state : Backend) (rc : Int) (state' : Backend)
    (books : SslBooks) : Prop where
  self : state'.self = state.self
  holds : Holds books.log (backendHeldIn books.phase state' + S)
  able : rc = 0 → Able books.phase state'

section Uses

variable {books : SslBooks} {S : Multiset Resource} {state : Backend}

theorem backendHeldIn_congr {sessions sessions' : Sessions}
    (h : ∀ r, (sessions' r).bios = (sessions r).bios) :
    backendHeldIn sessions' state = backendHeldIn sessions state := by
  unfold backendHeldIn
  rw [pairHeldIn_congr h]

theorem mem_backendHeldIn {sessions : Sessions} {ctx : Ptr}
    (h : state.clientCtx = some ctx ∨ state.serverCtx = some ctx) :
    .ctx ctx ∈ backendHeldIn sessions state + S := by
  rcases h with h | h
  · simp [backendHeldIn, h, held]
  · simp [backendHeldIn, h, held]

theorem wp_transferOnce_session {Q : Int × Backend → SslBooks → Prop}
    (hb : state.benchmark = .transfer) (ha : Able books.phase state)
    (h : Holds books.log (backendHeldIn books.phase state + S))
    (hQ : ∀ rc bytes sessions, Left S state rc { state with received.bytes := bytes }
      ⟨books.log, sessions⟩ → Q (rc, { state with received.bytes := bytes })
        ⟨books.log, sessions⟩) : ssl.env.wp (transferOnce state) Q books := by
  have hready := ha.pair hb
  obtain ⟨c, s, hpair, -⟩ := ha.pair hb
  unfold transferOnce
  rw [Env.wp_bind]
  have h' := h
  unfold backendHeldIn at h'
  rw [hpair] at hready h'
  rw [add_assoc] at h'
  have hfrom : transferFrom state.transferPair = transferFrom ⟨some c, some s⟩ := by rw [hpair]
  rw [hfrom]
  have hheld : ∀ bytes sessions, (∀ r, (sessions r).bios = (books.phase r).bios) →
      Holds books.log (backendHeldIn sessions { state with received.bytes := bytes } + S) := by
    intro bytes sessions hbios
    have hheld : backendHeldIn sessions state = backendHeldIn books.phase state :=
      backendHeldIn_congr hbios
    exact hheld ▸ h
  refine wp_transferFrom_session ha.plaintext h' hready (fun bytes sessions hready' _ hbios => ?_)
    fun bytes sessions _ hbios => ?_
  · refine hQ 0 bytes sessions ⟨rfl, hheld bytes sessions hbios, fun _ => ?_⟩
    exact ⟨ha.clientCtx, ha.serverCtx, ha.plaintext, fun _ => hpair ▸ hready'⟩
  · exact hQ (-1) bytes sessions ⟨rfl, hheld bytes sessions hbios, fun hrc => absurd hrc (by simp)⟩

/-- A handshake beside what a backend holds. -/
theorem wp_handshake_session {Q : Int × TlsPair → SslBooks → Prop} (ha : Able books.phase state)
    (h : Holds books.log (backendHeldIn books.phase state + S))
    (hok : ∀ pair log sessions,
      Holds log (pairHeldIn sessions pair + (backendHeldIn books.phase state + S)) →
      PairReady sessions pair → Frame (backendHeldIn books.phase state + S) books.phase sessions →
      Q (0, pair) ⟨log, sessions⟩)
    (hfail : ∀ log sessions, Holds log (backendHeldIn books.phase state + S) →
      Frame (backendHeldIn books.phase state + S) books.phase sessions →
      Q (-1, .null) ⟨log, sessions⟩) :
    ssl.env.wp (tlsPairCreate state.clientCtx state.serverCtx) Q books := by
  obtain ⟨cc, hcc⟩ := Option.ne_none_iff_exists'.1 ha.clientCtx
  obtain ⟨sc, hsc⟩ := Option.ne_none_iff_exists'.1 ha.serverCtx
  have hccmem : .ctx cc ∈ backendHeldIn books.phase state + S := mem_backendHeldIn (.inl hcc)
  have hscmem : .ctx sc ∈ backendHeldIn books.phase state + S := mem_backendHeldIn (.inr hsc)
  rw [hcc, hsc]
  exact wp_tlsPairCreate_session h hccmem hscmem hok hfail

theorem Frame.left {sessions : Sessions}
    (hf : Frame (backendHeldIn books.phase state + S) books.phase sessions) :
    Frame (backendHeldIn books.phase state) books.phase sessions :=
  fun r hr => hf r (Multiset.mem_add.2 (.inl hr))

/-- A handshake benchmark has no pair of its own to lose. -/
theorem Able.frame {sessions : Sessions} (ha : Able books.phase state)
    (hb : state.benchmark = .handshake) : Able sessions state :=
  ⟨ha.clientCtx, ha.serverCtx, ha.plaintext, fun h => by simp [hb] at h⟩

/-- A call of a handshake benchmark that has given back what it took. -/
theorem left_of_frame {rc : Int} {log : List (Act Resource)} {sessions : Sessions}
    (ha : Able books.phase state) (hb : state.benchmark = .handshake)
    (hlog : Holds log (backendHeldIn books.phase state + S))
    (hf : Frame (backendHeldIn books.phase state + S) books.phase sessions) :
    Left S state rc state ⟨log, sessions⟩ :=
  ⟨rfl, hf.left.backendHeldIn_eq.symm ▸ hlog, fun _ => ha.frame hb⟩

theorem wp_verify_session {Q : Int × Backend → SslBooks → Prop} (ha : Able books.phase state)
    (h : Holds books.log (backendHeldIn books.phase state + S))
    (hQ : ∀ rc state' books', Left S state rc state' books' → Q (rc, state') books') :
    ssl.env.wp (ofbTlsBackendVerify state) Q books := by
  unfold ofbTlsBackendVerify
  rcases hb : state.benchmark with _ | _
  · simp only
    rw [Env.wp_bind]
    refine wp_handshake_session ha h (fun pair log₁ φ₁ h₁ hready hf₁ => ?_) fun log₁ φ₁ h₁ hf₁ => ?_
    · simp only [ne_eq, not_true_eq_false, if_false]
      rw [Env.wp_bind]
      refine wp_tlsPairMatches_session h₁ hready fun matched => ?_
      split_ifs with hm
      · rw [Env.wp_bind]
        exact wp_tlsPairDestroy_session h₁ fun log₂ h₂ =>
          hQ _ _ _ (left_of_frame ha hb h₂ hf₁)
      · rw [Env.wp_bind]
        exact wp_tlsPairDestroy_session h₁ fun log₂ h₂ =>
          hQ _ _ _ (left_of_frame ha hb h₂ hf₁)
    · exact hQ _ _ _ (left_of_frame ha hb h₁ hf₁)
  · simp only
    rw [Env.wp_bind]
    have h' := h
    unfold backendHeldIn at h'
    rw [add_assoc] at h'
    refine wp_tlsPairMatches_session h' (ha.pair hb) fun matched => ?_
    split_ifs with hm
    · rw [Env.wp_bind]
      refine wp_transferOnce_session hb ha h fun rc bytes φ₁ hl => ?_
      simp only
      split_ifs with hrc heq
      · exact hQ _ _ _ ⟨hl.self, hl.holds, fun hzero => absurd hzero (by simp)⟩
      · rw [not_not] at hrc
        exact hQ _ _ _ ⟨hl.self, hl.holds, fun _ => hl.able hrc⟩
      · exact hQ _ _ _ ⟨hl.self, hl.holds, fun hzero => absurd hzero (by simp)⟩
    · exact hQ _ _ _ ⟨rfl, h, fun _ => ha⟩

theorem wp_handshakeBatch_session {iterations : ℕ} {Q : Int → SslBooks → Prop}
    (hb : state.benchmark = .handshake) (ha : Able books.phase state)
    (h : Holds books.log (backendHeldIn books.phase state + S))
    (hQ : ∀ rc books', Left S state rc state books' → Q rc books') :
    ssl.env.wp (handshakeBatch state iterations) Q books := by
  induction iterations generalizing books with
  | zero => exact hQ 0 books ⟨rfl, h, fun _ => ha⟩
  | succ iterations ih =>
    unfold handshakeBatch
    rw [Env.wp_bind]
    refine wp_handshake_session ha h (fun pair log₁ φ₁ h₁ _ hf₁ => ?_) fun log₁ φ₁ h₁ hf₁ => ?_
    · simp only [ne_eq, not_true_eq_false, if_false]
      rw [Env.wp_bind]
      refine wp_tlsPairDestroy_session h₁ fun log₂ h₂ => ?_
      exact ih (ha.frame hb) (hf₁.left.backendHeldIn_eq.symm ▸ h₂)
    · exact hQ _ _ (left_of_frame ha hb h₁ hf₁)

theorem wp_transferBatch_session {iterations : ℕ} {Q : Int × Backend → SslBooks → Prop}
    (hb : state.benchmark = .transfer) (ha : Able books.phase state)
    (h : Holds books.log (backendHeldIn books.phase state + S))
    (hQ : ∀ rc state' books', Left S state rc state' books' → Q (rc, state') books') :
    ssl.env.wp (transferBatch state iterations) Q books := by
  induction iterations generalizing books state with
  | zero => exact hQ 0 state books ⟨rfl, h, fun _ => ha⟩
  | succ iterations ih =>
    unfold transferBatch
    rw [Env.wp_bind]
    refine wp_transferOnce_session hb ha h fun rc bytes φ₁ hl => ?_
    by_cases hrc : rc ≠ 0
    · simp only [if_pos hrc]
      exact hQ _ _ _ ⟨hl.self, hl.holds, fun hzero => absurd hzero (by simp)⟩
    · simp only [if_neg hrc]
      rw [not_not] at hrc
      have ha' := hl.able hrc
      have h' := hl.holds
      exact ih hb ha' h' fun rc' state' books' hl' =>
        hQ rc' state' books' ⟨hl'.self, hl'.holds, hl'.able⟩

theorem wp_runBatch_session {iterations : UInt64} {Q : Int × Backend → SslBooks → Prop}
    (ha : Able books.phase state) (h : Holds books.log (backendHeldIn books.phase state + S))
    (hQ : ∀ rc state' books', Left S state rc state' books' → Q (rc, state') books') :
    ssl.env.wp (ofbTlsBackendRunBatch state iterations) Q books := by
  unfold ofbTlsBackendRunBatch
  rcases hb : state.benchmark with _ | _
  · simp only
    rw [Env.wp_bind]
    exact wp_handshakeBatch_session hb ha h fun rc books' hl => hQ rc state books' hl
  · simp only
    rw [Env.wp_bind]
    refine wp_transferBatch_session hb ha h fun rc state' books' hl => ?_
    simp only
    by_cases hrc : rc ≠ 0
    · rw [if_pos hrc]
      exact hQ _ _ _ ⟨hl.self, hl.holds, fun hzero => absurd hzero (by simp)⟩
    rw [if_neg hrc]
    rw [not_not] at hrc
    have ha' := hl.able hrc
    by_cases heq : memEq state'.plaintext.bytes state'.received.bytes state'.messageSize.toNat
    · rw [if_pos heq]
      exact hQ _ _ _ ⟨hl.self, hl.holds, fun _ => ⟨ha'.clientCtx, ha'.serverCtx, ha'.plaintext,
        ha'.pair⟩⟩
    · rw [if_neg heq]
      exact hQ _ _ _ ⟨hl.self, hl.holds, fun hzero => absurd hzero (by simp)⟩

theorem wp_destroy_session {Q : Unit → SslBooks → Prop}
    (h : Holds books.log (backendHeldIn books.phase state + S))
    (hQ : ∀ log, Holds log S → Q () ⟨log, books.phase⟩) :
    ssl.env.wp (ofbTlsBackendDestroy (some state)) Q books := by
  unfold ofbTlsBackendDestroy
  simp only [backendHeldIn, add_assoc] at h
  rw [Env.wp_bind]
  refine wp_tlsPairDestroy_session h fun log₁ h₁ => ?_
  rw [Env.wp_bind]
  refine wp_sslCtxFree_session h₁ fun log₂ h₂ => ?_
  rw [Env.wp_bind]
  refine wp_sslCtxFree_session h₂ fun log₃ h₃ => ?_
  rw [Env.wp_bind]
  refine wp_memFree_session h₃ fun log₄ h₄ => ?_
  rw [Env.wp_bind]
  refine wp_memFree_session h₄ fun log₅ h₅ => ?_
  exact wp_memFree_session h₅ hQ

end Uses

/-! ## Creation -/

section Create

variable {books : SslBooks} {S : Multiset Resource} {params : Params}

/-- What `create` allocates for `params` holds the message if it is not NULL. -/
structure Blank (params : Params) (state : Backend) : Prop where
  messageSize : state.messageSize = params.messageSize
  benchmark : state.benchmark = params.benchmark
  transferPair : state.transferPair = .null
  plaintext : state.plaintext.ptr ≠ none →
    params.messageSize.toNat ≤ state.plaintext.bytes.length

theorem wp_allocate_session {self : Ptr} {Q : Backend → SslBooks → Prop}
    (h : Holds books.log (held .memory (some self) + S))
    (hQ : ∀ state log, Blank params state → Holds log (backendHeldIn books.phase state + S) →
      Q state ⟨log, books.phase⟩) : ssl.env.wp (allocate self params) Q books := by
  unfold allocate
  rw [Env.wp_bind]
  refine wp_sslCtxNew_session h fun clientCtx log₁ h₁ => ?_
  rw [Env.wp_bind]
  refine wp_sslCtxNew_session h₁ fun serverCtx log₂ h₂ => ?_
  rw [Env.wp_bind]
  refine wp_malloc_session h₂ (orOne_ne_zero _) fun plaintext log₃ h₃ => ?_
  rw [Env.wp_bind]
  refine wp_malloc_session h₃ (orOne_ne_zero _) fun received log₄ h₄ => ?_
  refine hQ _ log₄ ⟨rfl, rfl, rfl, buffer_room⟩ ?_
  have hheld : held .memory (Block.buffer received).ptr + (held .memory (Block.buffer plaintext).ptr
      + (held .ctx serverCtx + (held .ctx clientCtx + (held .memory (some self) + S))))
      = pairHeldIn books.phase .null + (held .ctx clientCtx + (held .ctx serverCtx
      + (held .memory (Block.buffer plaintext).ptr + (held .memory (Block.buffer received).ptr
      + held .memory (some self))))) + S := by
    have hnull : pairHeldIn books.phase .null = 0 := rfl
    rw [hnull]
    abel
  rw [hheld] at h₄
  exact h₄

theorem wp_anyRefused_session {configs : List (Option Ptr × Config)} {Q : Bool → SslBooks → Prop}
    (h : Holds books.log S) (hctx : ∀ c ∈ configs, ∃ ctx, c.1 = some ctx ∧ .ctx ctx ∈ S)
    (hQ : ∀ refused, Q refused books) : ssl.env.wp (anyRefused configs) Q books := by
  induction configs with
  | nil => exact hQ false
  | cons config configs ih =>
    obtain ⟨ctx, hsome, hmem⟩ := hctx config List.mem_cons_self
    obtain ⟨ctx', config⟩ := config
    cases hsome
    unfold anyRefused
    rw [Env.wp_bind]
    refine wp_onCtx h hmem rfl (Option.some_ne_none ctx) (fun _ => rfl) (fun _ => rfl) fun rc => ?_
    split_ifs with hrc
    · exact hQ true
    · exact ih fun c hc => hctx c (List.mem_cons_of_mem _ hc)

theorem wp_unusable_session {state : Backend} {Q : Bool → SslBooks → Prop}
    (h : Holds books.log (backendHeldIn books.phase state + S)) (hyes : Q true books)
    (hno : state.clientCtx ≠ none → state.serverCtx ≠ none → state.plaintext.ptr ≠ none →
      ∀ refused, Q refused books) : ssl.env.wp (unusable state params) Q books := by
  unfold unusable
  split_ifs with hnull
  · exact hyes
  simp only [not_or] at hnull
  obtain ⟨hclient, hserver, hplain, -⟩ := hnull
  obtain ⟨cc, hcc⟩ := Option.ne_none_iff_exists'.1 hclient
  obtain ⟨sc, hsc⟩ := Option.ne_none_iff_exists'.1 hserver
  have hccmem : Resource.ctx cc ∈ backendHeldIn books.phase state + S :=
    mem_backendHeldIn (.inl hcc)
  have hscmem : Resource.ctx sc ∈ backendHeldIn books.phase state + S :=
    mem_backendHeldIn (.inr hsc)
  refine wp_anyRefused_session h (fun c hc => ?_) (hno hclient hserver hplain)
  have hside : c.1 = state.clientCtx ∨ c.1 = state.serverCtx := by
    simp only [contextConfigs, List.mem_cons, List.not_mem_nil, or_false] at hc
    rcases hc with rfl | rfl | rfl | rfl | rfl | rfl | rfl | rfl | rfl <;> simp
  rcases hside with heq | heq
  · exact ⟨cc, heq.trans hcc, hccmem⟩
  · exact ⟨sc, heq.trans hsc, hscmem⟩

/-- A pair beside what a new backend holds becomes its own. -/
theorem holds_withPair {state : Backend} {pair : TlsPair} {log : List (Act Resource)}
    {sessions sessions' : Sessions} (hnull : state.transferPair = .null)
    (h : Holds log (pairHeldIn sessions' pair + (backendHeldIn sessions state + S))) :
    Holds log (backendHeldIn sessions' { state with transferPair := pair } + S) := by
  have hpair : pairHeldIn sessions .null = 0 := rfl
  simp only [backendHeldIn, hnull, hpair, zero_add] at h ⊢
  rw [add_assoc (pairHeldIn sessions' pair)]
  exact h

/-- What `create` has allocated and filled in. -/
structure Filled (params : Params) (state : Backend) : Prop where
  clientCtx : state.clientCtx ≠ none
  serverCtx : state.serverCtx ≠ none
  benchmark : state.benchmark = params.benchmark
  transferPair : state.transferPair = .null
  plaintext : state.messageSize.toNat ≤ state.plaintext.bytes.length

theorem Blank.filled {state : Backend} (hb : Blank params state) (hclient : state.clientCtx ≠ none)
    (hserver : state.serverCtx ≠ none) (hplain : state.plaintext.ptr ≠ none) :
    Filled params (state.fillPlaintext params.messageSize.toNat) := by
  refine ⟨hclient, hserver, hb.benchmark, hb.transferPair, ?_⟩
  simp only [Backend.fillPlaintext, length_fill, hb.messageSize]
  exact hb.plaintext hplain

theorem Filled.able {state : Backend} {sessions : Sessions} (hf : Filled params state)
    (hready : state.benchmark = .transfer → PairReady sessions state.transferPair) :
    Able sessions state := ⟨hf.clientCtx, hf.serverCtx, hf.plaintext, hready⟩

/-- A transfer benchmark connects its pair before it is returned. -/
theorem wp_transferPair_session {state : Backend} {cell : Option Cell}
    {Q : Int × Option Cell → SslBooks → Prop} (hf : Filled params state)
    (h : Holds books.log (backendHeldIn books.phase state + S))
    (hok : ∀ state books', Able books'.phase state →
      Holds books'.log (backendHeldIn books'.phase state + S) → Q (0, some (some state)) books')
    (hfail : ∀ books', Holds books'.log S → Q (-1, cell) books') :
    ssl.env.wp (do
      let (rc, pair) ← tlsPairCreate state.clientCtx state.serverCtx
      if rc ≠ 0 then do
        ofbTlsBackendDestroy (some { state with transferPair := pair })
        pure (-1, cell)
      else pure (0, some (some { state with transferPair := pair }))) Q books := by
  obtain ⟨cc, hcc⟩ := Option.ne_none_iff_exists'.1 hf.clientCtx
  obtain ⟨sc, hsc⟩ := Option.ne_none_iff_exists'.1 hf.serverCtx
  have hccmem : Resource.ctx cc ∈ backendHeldIn books.phase state + S :=
    mem_backendHeldIn (.inl hcc)
  have hscmem : Resource.ctx sc ∈ backendHeldIn books.phase state + S :=
    mem_backendHeldIn (.inr hsc)
  have hcreate : tlsPairCreate state.clientCtx state.serverCtx
      = tlsPairCreate (some cc) (some sc) := by rw [hcc, hsc]
  rw [hcreate, Env.wp_bind]
  refine wp_tlsPairCreate_session h hccmem hscmem (fun pair log sessions hlog hready _ => ?_)
    fun log sessions hlog hframe => ?_
  · simp only [ne_eq, not_true_eq_false, if_false]
    exact hok _ _ ⟨hf.clientCtx, hf.serverCtx, hf.plaintext, fun _ => hready⟩
      (holds_withPair hf.transferPair hlog)
  · simp only [ne_eq, reduceCtorEq, not_false_eq_true, if_true, Int.reduceNeg]
    rw [Env.wp_bind]
    have hsame : { state with transferPair := .null } = state := by rw [← hf.transferPair]
    rw [hsame]
    refine wp_destroy_session (S := S) ?_ fun log' hlog' => hfail _ hlog'
    exact hframe.left.backendHeldIn_eq.symm ▸ hlog

theorem wp_setUp_session {self : Ptr} {cell : Option Cell} {Q : Int × Option Cell → SslBooks → Prop}
    (h : Holds books.log (held .memory (some self) + S))
    (hok : ∀ state books', Able books'.phase state →
      Holds books'.log (backendHeldIn books'.phase state + S) → Q (0, some (some state)) books')
    (hfail : ∀ books', Holds books'.log S → Q (-1, cell) books') :
    ssl.env.wp (setUp self params cell) Q books := by
  unfold setUp
  rw [Env.wp_bind]
  refine wp_allocate_session h fun state log₁ hb h₁ => ?_
  rw [Env.wp_bind]
  have hgive : ssl.env.wp (do ofbTlsBackendDestroy (some state); pure (-1, cell)) Q
      ⟨log₁, books.phase⟩ := by
    rw [Env.wp_bind]
    exact wp_destroy_session h₁ fun log hlog => hfail _ hlog
  refine wp_unusable_session h₁ hgive fun hclient hserver hplain refused => ?_
  cases refused with
  | true => exact hgive
  | false =>
    have hf := hb.filled hclient hserver hplain
    have h₂ : Holds log₁ (backendHeldIn books.phase
        (state.fillPlaintext params.messageSize.toNat) + S) := h₁
    obtain ⟨cc, hcc⟩ := Option.ne_none_iff_exists'.1 hclient
    simp only [Bool.false_eq_true, if_false]
    rw [Env.wp_bind, hcc]
    refine wp_onCtx h₁ (mem_backendHeldIn (.inl hcc)) rfl (Option.some_ne_none cc) (fun _ => rfl)
      (fun _ => rfl) fun _ => ?_
    generalize state.fillPlaintext params.messageSize.toNat = filled at hf h₂ ⊢
    by_cases htransfer : params.benchmark = .transfer
    · rw [if_pos htransfer]
      exact wp_transferPair_session hf h₂ hok hfail
    · rw [if_neg htransfer]
      exact hok _ _ (hf.able fun hb => absurd (hf.benchmark.symm.trans hb) htransfer) h₂

theorem wp_create_session {cell : Option Cell} {params : Option Params}
    {Q : Int × Option Cell → SslBooks → Prop} (h : Holds books.log S)
    (hok : ∀ state books', Able books'.phase state →
      Holds books'.log (backendHeldIn books'.phase state + S) → Q (0, some (some state)) books')
    (hfail : ∀ books', Holds books'.log S → Q (-1, cell) books') :
    ssl.env.wp (ofbTlsBackendCreate params cell) Q books := by
  rcases params with _ | params
  · exact hfail _ h
  rcases cell with _ | cell
  · exact hfail _ h
  unfold ofbTlsBackendCreate
  simp only
  by_cases hmax : params.messageSize > intMax
  · rw [if_pos hmax]
    exact hfail _ h
  rw [if_neg hmax, Env.wp_bind]
  refine wp_calloc_session h fun self log hlog => ?_
  rcases self with _ | self
  · exact hfail _ (by simpa [held] using hlog)
  · exact wp_setUp_session hlog hok hfail

end Create

/-- Between calls a backend can be used while they have returned 0, and holds all that is held. -/
theorem implementation_sound : implementation.Sound ssl.env (fun books => Holds books.log 0)
    (fun state books => Able books.phase state
      ∧ Holds books.log (backendHeldIn books.phase state))
    (fun state books => Holds books.log (backendHeldIn books.phase state)) where
  create params books h := by
    change ssl.env.wp (ofbTlsBackendCreate (some params) (some none)) _ books
    refine wp_create_session (S := 0) h (fun state books' ha hlog => ?_) ?_
    · rw [add_zero] at hlog
      exact ⟨ha, hlog⟩
    · exact fun books' hlog => hlog
  verify state unset books _ hown := by
    obtain ⟨ha, h⟩ := hown
    rw [← add_zero (backendHeldIn books.phase state)] at h
    refine wp_verify_session ha h fun rc state' books' hl => ⟨hl.self, ?_⟩
    have h' := hl.holds
    rw [add_zero] at h'
    split_ifs with hrc
    · exact ⟨hl.able hrc, h'⟩
    · exact h'
  runBatch state iterations books hown := by
    obtain ⟨ha, h⟩ := hown
    rw [← add_zero (backendHeldIn books.phase state)] at h
    refine wp_runBatch_session ha h fun rc state' books' hl => ⟨hl.self, ?_⟩
    have h' := hl.holds
    rw [add_zero] at h'
    split_ifs with hrc
    · exact ⟨hl.able hrc, h'⟩
    · exact h'
  abandon state books hown := hown.2
  destroy state books h := by
    rw [← add_zero (backendHeldIn books.phase state)] at h
    exact wp_destroy_session h fun log hlog => hlog
  destroy_none books := rfl

/-! ## A library in which nothing fails -/

def Resource.address : Resource → ℕ
  | .memory p => p
  | .ctx p => p
  | .ssl p => p
  | .bio p => p

/-- A handshake takes one step, and a read finds zeros; an object is handed out at an address above
all others. -/
def promptLibrary (books : SslBooks) (call : Ssl.Call) : Ssl.Resp call :=
  (workingLibrary (nextAddress Resource.address books.log) call).1

theorem promptLibrary_step (books : SslBooks) (call : Ssl.Call) :
    ssl.env.step books call (ssl.handler promptLibrary books call).1
      (ssl.handler promptLibrary books call).2 := by
  have hfresh : ∀ r : Resource, nextAddress Resource.address books.log ≤ r.address →
      Ledger.Fresh books.log r := fun r h => fresh_of_next_le h
  refine Custody.handler_step (A := Ssl) books call trivial ?_
  change FreshActs books.log (actsOf books.phase call (promptLibrary books call))
  cases call with
  | calloc => exact ⟨hfresh (.memory _) (le_refl _), trivial⟩
  | malloc size => exact ⟨hfresh (.memory _) (le_refl _), trivial⟩
  | ctxNew => exact ⟨hfresh (.ctx _) (le_refl _), trivial⟩
  | sslNew ctx => exact ⟨hfresh (.ssl _) (le_refl _), trivial⟩
  | newBioPair =>
    have hnext := hfresh (.bio (nextAddress Resource.address books.log + 1)) (Nat.le_succ _)
    exact ⟨hfresh (.bio _) (le_refl _), hnext.acquire_of_ne (by simp), trivial⟩
  | memFree ptr => cases ptr <;> trivial
  | ctxFree ctx => cases ctx <;> trivial
  | bioFree bio => cases bio <;> trivial
  | sslFree ptr =>
    cases ptr with
    | none => trivial
    | some p => exact freshActs_release (sslObjectsIn books.phase p)
  | setBio ptr rbio wbio =>
    cases ptr with
    | none => trivial
    | some p => exact freshActs_release ((books.phase (.ssl p)).bios.map Resource.bio)
  | _ => trivial

end OfbBench.Tls
