import OfbBench.Bench

/-!
# The TLS backend

`backends/openssl_tls.c` over the calls it makes to the library and the allocator. Pointers are
`Option Ptr`, with `none` for NULL. The offsets within a message are natural numbers: a message has
at most `INT_MAX` bytes, so no `size_t` or `int` that holds one wraps around.
-/

namespace OfbBench.Tls

/-- What is set on a context, or asked of it, before it is used. -/
inductive Config
  | setMinProtoVersion (version : Int)
  | setMaxProtoVersion (version : Int)
  | setCiphersuites (cipher : String)
  | useCertificateFile (path : String)
  | usePrivateKeyFile (path : String)
  | checkPrivateKey
  deriving DecidableEq, Repr

inductive Ssl.Call
  | calloc
  | malloc (size : UInt64)
  | memFree (ptr : Option Ptr)
  | ctxNew
  | ctxFree (ctx : Option Ptr)
  | ctxConfig (ctx : Option Ptr) (config : Config)
  | ctxSetVerify (ctx : Option Ptr)
  | sslNew (ctx : Option Ptr)
  | sslFree (ssl : Option Ptr)
  | newBioPair
  | bioFree (bio : Option Ptr)
  | setBio (ssl : Option Ptr) (rbio wbio : Ptr)
  | setConnectState (ssl : Option Ptr)
  | setAcceptState (ssl : Option Ptr)
  | doHandshake (ssl : Option Ptr)
  | getError (ssl : Option Ptr) (result : Int)
  | version (ssl : Option Ptr)
  | cipherName (ssl : Option Ptr)
  | write (ssl : Option Ptr) (offset num : ℕ) (data : List UInt8)
  | read (ssl : Option Ptr) (offset num : ℕ)
  deriving DecidableEq

/-- What `SSL_read` returns and the bytes it puts into the buffer. -/
structure ReadAnswer (num : ℕ) where
  result : Int
  data : List UInt8
  result_le : result ≤ num
  length_data : data.length = result.toNat

/-- `BIO_new_bio_pair` answers with the two BIOs, or with nothing and leaves both NULL; a `write`
carries the bytes at the address it is given. -/
@[reducible] def Ssl.Resp : Ssl.Call → Type
  | .calloc => Option Ptr
  | .malloc size => Option (Block size.toNat)
  | .memFree _ => Unit
  | .ctxNew => Option Ptr
  | .ctxFree _ => Unit
  | .ctxConfig _ _ => Int
  | .ctxSetVerify _ => Unit
  | .sslNew _ => Option Ptr
  | .sslFree _ => Unit
  | .newBioPair => Option (Ptr × Ptr)
  | .bioFree _ => Unit
  | .setBio _ _ _ => Unit
  | .setConnectState _ => Unit
  | .setAcceptState _ => Unit
  | .doHandshake _ => Int
  | .getError _ _ => Int
  | .version _ => Int
  | .cipherName _ => String
  | .write _ _ _ _ => Int
  | .read _ _ num => ReadAnswer num

abbrev Ssl : Api := ⟨Ssl.Call, Ssl.Resp⟩

section Calls

def calloc : Prog Ssl (Option Ptr) := .ask (A := Ssl) .calloc

def malloc (size : UInt64) : Prog Ssl (Option (Block size.toNat)) := .ask (A := Ssl) (.malloc size)

def memFree (ptr : Option Ptr) : Prog Ssl Unit := .ask (A := Ssl) (.memFree ptr)

def sslCtxNew : Prog Ssl (Option Ptr) := .ask (A := Ssl) .ctxNew

def sslCtxFree (ctx : Option Ptr) : Prog Ssl Unit := .ask (A := Ssl) (.ctxFree ctx)

def sslCtxConfig (ctx : Option Ptr) (config : Config) : Prog Ssl Int :=
  .ask (A := Ssl) (.ctxConfig ctx config)

def sslCtxSetVerify (ctx : Option Ptr) : Prog Ssl Unit := .ask (A := Ssl) (.ctxSetVerify ctx)

def sslNew (ctx : Option Ptr) : Prog Ssl (Option Ptr) := .ask (A := Ssl) (.sslNew ctx)

def sslFree (ssl : Option Ptr) : Prog Ssl Unit := .ask (A := Ssl) (.sslFree ssl)

def bioNewBioPair : Prog Ssl (Option (Ptr × Ptr)) := .ask (A := Ssl) .newBioPair

def bioFree (bio : Option Ptr) : Prog Ssl Unit := .ask (A := Ssl) (.bioFree bio)

def sslSetBio (ssl : Option Ptr) (rbio wbio : Ptr) : Prog Ssl Unit :=
  .ask (A := Ssl) (.setBio ssl rbio wbio)

def sslSetConnectState (ssl : Option Ptr) : Prog Ssl Unit := .ask (A := Ssl) (.setConnectState ssl)

def sslSetAcceptState (ssl : Option Ptr) : Prog Ssl Unit := .ask (A := Ssl) (.setAcceptState ssl)

def sslDoHandshake (ssl : Option Ptr) : Prog Ssl Int := .ask (A := Ssl) (.doHandshake ssl)

def sslGetError (ssl : Option Ptr) (result : Int) : Prog Ssl Int :=
  .ask (A := Ssl) (.getError ssl result)

def sslVersion (ssl : Option Ptr) : Prog Ssl Int := .ask (A := Ssl) (.version ssl)

def sslGetCipherName (ssl : Option Ptr) : Prog Ssl String := .ask (A := Ssl) (.cipherName ssl)

def sslWrite (ssl : Option Ptr) (offset num : ℕ) (data : List UInt8) : Prog Ssl Int :=
  .ask (A := Ssl) (.write ssl offset num data)

def sslRead (ssl : Option Ptr) (offset num : ℕ) : Prog Ssl (ReadAnswer num) :=
  .ask (A := Ssl) (.read ssl offset num)

end Calls

/-- `TLS1_3_VERSION`. -/
def tls13Version : Int := 0x0304

/-- `SSL_ERROR_WANT_READ`. -/
def errorWantRead : Int := 2

/-- `SSL_ERROR_WANT_WRITE`. -/
def errorWantWrite : Int := 3

/-- `OFB_TLS_RECORD_SIZE`. -/
def recordSize : ℕ := 16384

/-- `struct tls_pair`. -/
structure TlsPair where
  client : Option Ptr
  server : Option Ptr
  deriving DecidableEq, Repr

def TlsPair.null : TlsPair := ⟨none, none⟩

/-- `struct ofb_tls_backend`, with its own address. -/
structure Backend where
  self : Ptr
  clientCtx : Option Ptr
  serverCtx : Option Ptr
  transferPair : TlsPair
  benchmark : Benchmark
  cipher : String
  plaintext : Buffer
  received : Buffer
  messageSize : UInt64
  checksum : UInt8
  deriving DecidableEq, Repr

/-! ## A pair of connections -/

def tlsPairDestroy (pair : TlsPair) : Prog Ssl TlsPair := do
  sslFree pair.client
  sslFree pair.server
  pure .null

/-- The return value comes with `*finished` as the call leaves it. -/
def handshakeStep (ssl : Option Ptr) (finished : Bool) : Prog Ssl (Int × Bool) := do
  if finished then pure (0, finished) else do
    let result ← sslDoHandshake ssl
    if result = 1 then pure (0, true) else do
      let error ← sslGetError ssl result
      if error ≠ errorWantRead ∧ error ≠ errorWantWrite then pure (-1, finished)
      else pure (0, finished)

/-- The rounds of `tls_pair_create`, `attempts` of them at most. -/
def handshakeLoop (pair : TlsPair) : ℕ → Bool → Bool → Prog Ssl (Int × TlsPair)
  | 0, _, _ => do
    let pair ← tlsPairDestroy pair
    pure (-1, pair)
  | attempts + 1, clientFinished, serverFinished => do
    let (rc, clientFinished) ← handshakeStep pair.client clientFinished
    if rc ≠ 0 then do
      let pair ← tlsPairDestroy pair
      pure (-1, pair)
    else do
      let (rc, serverFinished) ← handshakeStep pair.server serverFinished
      if rc ≠ 0 then do
        let pair ← tlsPairDestroy pair
        pure (-1, pair)
      else if clientFinished ∧ serverFinished then pure (0, pair)
      else handshakeLoop pair attempts clientFinished serverFinished

/-- The last operand of the `||` of `tls_pair_create`, made only if the other two are false. -/
def newBios (client server : Option Ptr) : Prog Ssl (Option (Ptr × Ptr)) :=
  if client = none ∨ server = none then pure none else bioNewBioPair

/-- The return value comes with `*pair` as the call leaves it. -/
def tlsPairCreate (clientCtx serverCtx : Option Ptr) : Prog Ssl (Int × TlsPair) := do
  let client ← sslNew clientCtx
  let server ← sslNew serverCtx
  let bios ← newBios client server
  match bios with
  | none => do
    bioFree none
    bioFree none
    let pair ← tlsPairDestroy ⟨client, server⟩
    pure (-1, pair)
  | some (clientBio, serverBio) => do
    sslSetBio client clientBio clientBio
    sslSetBio server serverBio serverBio
    sslSetConnectState client
    sslSetAcceptState server
    handshakeLoop ⟨client, server⟩ 10000 false false

def tlsPairMatches (pair : TlsPair) (cipher : String) : Prog Ssl Bool := do
  let clientVersion ← sslVersion pair.client
  if clientVersion ≠ tls13Version then pure false else do
    let serverVersion ← sslVersion pair.server
    if serverVersion ≠ tls13Version then pure false else do
      let clientCipher ← sslGetCipherName pair.client
      if clientCipher ≠ cipher then pure false else do
        let serverCipher ← sslGetCipherName pair.server
        pure (serverCipher = cipher)

/-! ## A transfer -/

/-- The inner loop of `transfer_once`, which reads the chunk at `offset`: the return value comes
with the bytes of `state->received`. -/
def readChunk (server : Option Ptr) (offset chunk received : ℕ) (bytes : List UInt8) :
    Prog Ssl (Int × List UInt8) := do
  if _ : received < chunk then do
    let answer ← sslRead server (offset + received) (chunk - received)
    let bytes := splice bytes (offset + received) answer.data
    if _ : answer.result ≤ 0 then pure (-1, bytes)
    else readChunk server offset chunk (received + answer.result.toNat) bytes
  else pure (0, bytes)
termination_by chunk - received

/-- The outer loop of `transfer_once`, on the part of the message from `offset` on. -/
def transferFrom (pair : TlsPair) (plaintext : List UInt8) (messageSize offset : ℕ)
    (bytes : List UInt8) : Prog Ssl (Int × List UInt8) := do
  if _ : offset < messageSize then do
    let chunk := min (messageSize - offset) recordSize
    let result ← sslWrite pair.client offset chunk ((plaintext.drop offset).take chunk)
    if result ≠ chunk then pure (-1, bytes) else do
      let (rc, bytes) ← readChunk pair.server offset chunk 0 bytes
      if rc ≠ 0 then pure (-1, bytes)
      else transferFrom pair plaintext messageSize (offset + chunk) bytes
  else pure (0, bytes)
termination_by messageSize - offset
decreasing_by
  unfold recordSize
  omega

def transferOnce (state : Backend) : Prog Ssl (Int × Backend) := do
  let (rc, bytes) ← transferFrom state.transferPair state.plaintext.bytes
    state.messageSize.toNat 0 state.received.bytes
  pure (rc, { state with received.bytes := bytes })

/-! ## The backend -/

def ofbTlsBackendDestroy : Option Backend → Prog Ssl Unit
  | none => pure ()
  | some state => do
    let _ ← tlsPairDestroy state.transferPair
    sslCtxFree state.clientCtx
    sslCtxFree state.serverCtx
    memFree state.plaintext.ptr
    memFree state.received.ptr
    memFree (some state.self)

/-- `set₁(ctx₁, …) != 1 || set₂(ctx₂, …) != 1 || …`, up to the first that does not return 1. -/
def anyRefused : List (Option Ptr × Config) → Prog Ssl Bool
  | [] => pure false
  | (ctx, config) :: rest => do
    let rc ← sslCtxConfig ctx config
    if rc ≠ 1 then pure true else anyRefused rest

def contextConfigs (state : Backend) (params : Params) : List (Option Ptr × Config) :=
  [(state.clientCtx, .setMinProtoVersion tls13Version),
    (state.clientCtx, .setMaxProtoVersion tls13Version),
    (state.serverCtx, .setMinProtoVersion tls13Version),
    (state.serverCtx, .setMaxProtoVersion tls13Version),
    (state.clientCtx, .setCiphersuites params.cipher),
    (state.serverCtx, .setCiphersuites params.cipher),
    (state.serverCtx, .useCertificateFile params.certificatePath),
    (state.serverCtx, .usePrivateKeyFile params.privateKeyPath),
    (state.serverCtx, .checkPrivateKey)]

/-- What `ofb_tls_backend_create` allocates, before it checks that it got all of it. -/
def allocate (self : Ptr) (params : Params) : Prog Ssl Backend := do
  let clientCtx ← sslCtxNew
  let serverCtx ← sslCtxNew
  let plaintext ← malloc (if params.messageSize = 0 then 1 else params.messageSize)
  let received ← malloc (if params.messageSize = 0 then 1 else params.messageSize)
  pure {
    self, clientCtx, serverCtx
    transferPair := .null
    benchmark := params.benchmark
    cipher := params.cipher
    plaintext := Block.buffer plaintext
    received := Block.buffer received
    messageSize := params.messageSize
    checksum := 0 }

/-- The condition on which `ofb_tls_backend_create` gives up after it has allocated. -/
def unusable (state : Backend) (params : Params) : Prog Ssl Bool :=
  if state.clientCtx = none ∨ state.serverCtx = none ∨ state.plaintext.ptr = none
      ∨ state.received.ptr = none then pure true
  else anyRefused (contextConfigs state params)

def Backend.fillPlaintext (state : Backend) (size : ℕ) : Backend :=
  { state with plaintext := ⟨state.plaintext.ptr, fill 29 11 size state.plaintext.bytes⟩ }

/-- `*backend`, a pointer to a backend or NULL. -/
abbrev Cell := Option Backend

/-- What `ofb_tls_backend_create` does once it has a `struct ofb_tls_backend`. -/
def setUp (self : Ptr) (params : Params) (backend : Option Cell) :
    Prog Ssl (Int × Option Cell) := do
  let state ← allocate self params
  let refused ← unusable state params
  if refused then do
    ofbTlsBackendDestroy (some state)
    pure (-1, backend)
  else do
    sslCtxSetVerify state.clientCtx
    let state := state.fillPlaintext params.messageSize.toNat
    if params.benchmark = .transfer then do
      let (rc, pair) ← tlsPairCreate state.clientCtx state.serverCtx
      if rc ≠ 0 then do
        ofbTlsBackendDestroy (some { state with transferPair := pair })
        pure (-1, backend)
      else pure (0, some (some { state with transferPair := pair }))
    else pure (0, some (some state))

/-- `params` and `backend` are pointers that may be NULL; the return value comes with `*backend` as
the call leaves it. -/
def ofbTlsBackendCreate (params : Option Params) (backend : Option Cell) :
    Prog Ssl (Int × Option Cell) :=
  match params, backend with
  | some params, some _ =>
    if params.messageSize > intMax then pure (-1, backend) else do
      let self ← calloc
      match self with
      | none => pure (-1, backend)
      | some self => setUp self params backend
  | _, _ => pure (-1, backend)

/-- The return value comes with `*state` as the call leaves it. -/
def ofbTlsBackendVerify (state : Backend) : Prog Ssl (Int × Backend) := do
  match state.benchmark with
  | .handshake => do
    let (rc, pair) ← tlsPairCreate state.clientCtx state.serverCtx
    if rc ≠ 0 then pure (-1, state) else do
      let matched ← tlsPairMatches pair state.cipher
      if ¬ matched then do
        let _ ← tlsPairDestroy pair
        pure (-1, state)
      else do
        let _ ← tlsPairDestroy pair
        pure (0, state)
  | .transfer => do
    let matched ← tlsPairMatches state.transferPair state.cipher
    if ¬ matched then pure (-1, state) else do
      let (rc, state) ← transferOnce state
      if rc ≠ 0 then pure (-1, state)
      else if memEq state.plaintext.bytes state.received.bytes state.messageSize.toNat then
        pure (0, state)
      else pure (-1, state)

/-- The handshakes of a batch. -/
def handshakeBatch (state : Backend) : ℕ → Prog Ssl Int
  | 0 => pure 0
  | iterations + 1 => do
    let (rc, pair) ← tlsPairCreate state.clientCtx state.serverCtx
    if rc ≠ 0 then pure (-1) else do
      let _ ← tlsPairDestroy pair
      handshakeBatch state iterations

/-- The transfers of a batch. -/
def transferBatch (state : Backend) : ℕ → Prog Ssl (Int × Backend)
  | 0 => pure (0, state)
  | iterations + 1 => do
    let (rc, state) ← transferOnce state
    if rc ≠ 0 then pure (-1, state) else transferBatch state iterations

/-- The return value comes with `*state` as the call leaves it. -/
def ofbTlsBackendRunBatch (state : Backend) (iterations : UInt64) : Prog Ssl (Int × Backend) := do
  match state.benchmark with
  | .handshake => do
    let rc ← handshakeBatch state iterations.toNat
    pure (rc, state)
  | .transfer => do
    let (rc, state) ← transferBatch state iterations.toNat
    if rc ≠ 0 then pure (-1, state)
    else if memEq state.plaintext.bytes state.received.bytes state.messageSize.toNat then
      let last := state.received.bytes.getD
        (if state.messageSize = 0 then 0 else state.messageSize.toNat - 1) 0
      pure (0, { state with checksum := state.checksum ^^^ last })
    else pure (-1, state)

/-! ## What the programs do with a backend -/

/-- A call made on a backend between its creation and its destruction. -/
inductive Use
  | verify
  | runBatch (iterations : UInt64)
  deriving DecidableEq, Repr

def Use.run (state : Backend) : Use → Prog Ssl (Int × Backend)
  | .verify => ofbTlsBackendVerify state
  | .runBatch iterations => ofbTlsBackendRunBatch state iterations

/-- A sequence of calls on a backend, with what each of them returned. -/
def useAll (state : Backend) : List Use → Prog Ssl (List Int × Backend)
  | [] => pure ([], state)
  | use :: uses => do
    let (rc, state) ← use.run state
    let (rcs, state) ← useAll state uses
    pure (rc :: rcs, state)

end OfbBench.Tls
