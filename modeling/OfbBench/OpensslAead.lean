import OfbBench.Bench

/-!
# The AEAD backend

`backends/openssl_aead.c` over the calls it makes to the library and the allocator. A call carries
the bytes at the addresses it is given, and the number of bytes there is room for where it writes;
its answer carries what it wrote.
-/

namespace OfbBench.Aead

/-- `OFB_TAG_SIZE`. -/
def tagSize : ℕ := 16

/-- `OFB_NONCE_SIZE`. -/
def nonceSize : ℕ := 12

/-- The ciphers `find_cipher` knows. -/
inductive Cipher
  | aes128Gcm
  | aes256Gcm
  | chacha20Poly1305
  deriving DecidableEq, Repr

/-- `EVP_Encrypt…` or `EVP_Decrypt…`. -/
inductive Direction
  | encrypt
  | decrypt
  deriving DecidableEq, Repr

/-- `initCipher` and `initKey` are the two uses of `EVP_…Init_ex`, `updateAad` and `update` those of
`EVP_…Update`, `setIvLen`, `getTag` and `setTag` those of `EVP_CIPHER_CTX_ctrl`. -/
inductive Evp.Call
  | callocState
  | calloc (size : UInt64)
  | malloc (size : UInt64)
  | memFree (ptr : Option Ptr)
  | ctxNew
  | ctxFree (ctx : Option Ptr)
  | initCipher (direction : Direction) (ctx : Option Ptr) (cipher : Option Cipher)
  | setIvLen (ctx : Option Ptr) (len : ℕ)
  | initKey (direction : Direction) (ctx : Option Ptr) (key nonce : List UInt8)
  | updateAad (direction : Direction) (ctx : Option Ptr) (aad : List UInt8)
  | update (direction : Direction) (ctx : Option Ptr) (room : ℕ) (input : List UInt8)
  | final (direction : Direction) (ctx : Option Ptr) (room : ℕ)
  | getTag (ctx : Option Ptr) (tag : List UInt8)
  | setTag (ctx : Option Ptr) (tag : List UInt8)
  deriving DecidableEq

/-- The return value and `*len` of a call that writes, and what it wrote. -/
structure Written (room : ℕ) where
  result : Int
  len : ℕ
  data : List UInt8
  length_data : data.length ≤ room

/-- The return value of a call that reads the tag out, and the tag buffer after it. -/
structure TagAnswer where
  result : Int
  tag : List UInt8

@[reducible] def Evp.Resp : Evp.Call → Type
  | .callocState => Option Ptr
  | .calloc _ => Option Ptr
  | .malloc size => Option (Block size.toNat)
  | .memFree _ => Unit
  | .ctxNew => Option Ptr
  | .ctxFree _ => Unit
  | .initCipher _ _ _ => Int
  | .setIvLen _ _ => Int
  | .initKey _ _ _ _ => Int
  | .updateAad _ _ _ => Int
  | .update _ _ room _ => Written room
  | .final _ _ room => Written room
  | .getTag _ _ => TagAnswer
  | .setTag _ _ => Int

abbrev Evp : Api := ⟨Evp.Call, Evp.Resp⟩

section Calls

def callocState : Prog Evp (Option Ptr) := .ask (A := Evp) .callocState

def calloc (size : UInt64) : Prog Evp (Option Ptr) := .ask (A := Evp) (.calloc size)

def malloc (size : UInt64) : Prog Evp (Option (Block size.toNat)) := .ask (A := Evp) (.malloc size)

def memFree (ptr : Option Ptr) : Prog Evp Unit := .ask (A := Evp) (.memFree ptr)

def evpCtxNew : Prog Evp (Option Ptr) := .ask (A := Evp) .ctxNew

def evpCtxFree (ctx : Option Ptr) : Prog Evp Unit := .ask (A := Evp) (.ctxFree ctx)

def evpInitCipher (direction : Direction) (ctx : Option Ptr) (cipher : Option Cipher) :
    Prog Evp Int := .ask (A := Evp) (.initCipher direction ctx cipher)

def evpSetIvLen (ctx : Option Ptr) (len : ℕ) : Prog Evp Int := .ask (A := Evp) (.setIvLen ctx len)

def evpInitKey (direction : Direction) (ctx : Option Ptr) (key nonce : List UInt8) : Prog Evp Int :=
  .ask (A := Evp) (.initKey direction ctx key nonce)

def evpUpdateAad (direction : Direction) (ctx : Option Ptr) (aad : List UInt8) : Prog Evp Int :=
  .ask (A := Evp) (.updateAad direction ctx aad)

def evpUpdate (direction : Direction) (ctx : Option Ptr) (room : ℕ) (input : List UInt8) :
    Prog Evp (Written room) := .ask (A := Evp) (.update direction ctx room input)

def evpFinal (direction : Direction) (ctx : Option Ptr) (room : ℕ) : Prog Evp (Written room) :=
  .ask (A := Evp) (.final direction ctx room)

def evpGetTag (ctx : Option Ptr) (tag : List UInt8) : Prog Evp TagAnswer :=
  .ask (A := Evp) (.getTag ctx tag)

def evpSetTag (ctx : Option Ptr) (tag : List UInt8) : Prog Evp Int :=
  .ask (A := Evp) (.setTag ctx tag)

end Calls

/-- `struct ofb_backend`, with its own address. -/
structure Backend where
  self : Ptr
  cipher : Option Cipher
  ctx : Option Ptr
  operation : Operation
  key : List UInt8
  nonce : List UInt8
  tag : List UInt8
  aad : Buffer
  plaintext : Buffer
  ciphertext : Buffer
  output : Buffer
  aadSize : UInt64
  messageSize : UInt64
  checksum : UInt8
  deriving DecidableEq, Repr

def findCipher (name : String) : Option Cipher :=
  if name = "AES-128-GCM" then some .aes128Gcm
  else if name = "AES-256-GCM" then some .aes256Gcm
  else if name = "CHACHA20-POLY1305" then some .chacha20Poly1305
  else none

/-- The `aad_size` bytes at `state->aad`. -/
def Backend.aadBytes (state : Backend) : List UInt8 := state.aad.bytes.take state.aadSize.toNat

/-- The `message_size` bytes at `state->plaintext`. -/
def Backend.message (state : Backend) : List UInt8 :=
  state.plaintext.bytes.take state.messageSize.toNat

/-- The `message_size` bytes at `state->ciphertext`. -/
def Backend.sealed (state : Backend) : List UInt8 :=
  state.ciphertext.bytes.take state.messageSize.toNat

/-! ## One encryption, one decryption -/

/-- The calls up to the data, which all four code paths begin with: the return value is 0 if all
of them return 1. -/
def start (state : Backend) (direction : Direction) (ctx : Option Ptr) : Prog Evp Int := do
  let rc ← evpInitCipher direction ctx state.cipher
  if rc ≠ 1 then pure (-1) else do
    let rc ← evpSetIvLen ctx nonceSize
    if rc ≠ 1 then pure (-1) else do
      let rc ← evpInitKey direction ctx state.key state.nonce
      if rc ≠ 1 then pure (-1) else do
        let rc ← evpUpdateAad direction ctx state.aadBytes
        if rc ≠ 1 then pure (-1) else pure 0

/-- The calls of `encrypt_once` and of a seal iteration of `ofb_backend_run_batch`, from `input`
into the buffers `out` and `tag`: the return value comes with the two buffers. -/
def encryptWith (state : Backend) (ctx : Option Ptr) (out tag : List UInt8) :
    Prog Evp (Int × List UInt8 × List UInt8) := do
  let rc ← start state .encrypt ctx
  if rc ≠ 0 then pure (-1, out, tag) else do
    let data ← evpUpdate .encrypt ctx out.length state.message
    let out := splice out 0 data.data
    if data.result ≠ 1 then pure (-1, out, tag) else do
      let last ← evpFinal .encrypt ctx (out.length - data.len)
      let out := splice out data.len last.data
      if last.result ≠ 1 then pure (-1, out, tag) else do
        let answer ← evpGetTag ctx tag
        if answer.result ≠ 1 then pure (-1, out, answer.tag) else pure (0, out, answer.tag)

/-- The calls of `decrypt_once` and of an open iteration of `ofb_backend_run_batch`, on the stored
ciphertext and tag into the buffer `out`: the return value comes with the buffer. -/
def decryptWith (state : Backend) (ctx : Option Ptr) (out : List UInt8) :
    Prog Evp (Int × List UInt8) := do
  let rc ← start state .decrypt ctx
  if rc ≠ 0 then pure (-1, out) else do
    let data ← evpUpdate .decrypt ctx out.length state.sealed
    let out := splice out 0 data.data
    if data.result ≠ 1 then pure (-1, out) else do
      let rc ← evpSetTag ctx state.tag
      if rc ≠ 1 then pure (-1, out) else do
        let last ← evpFinal .decrypt ctx (out.length - data.len)
        let out := splice out data.len last.data
        if last.result ≠ 1 then pure (-1, out) else pure (0, out)

/-- The return value comes with the two buffers as the call leaves them. -/
def encryptOnce (state : Backend) (ciphertext tag : List UInt8) :
    Prog Evp (Int × List UInt8 × List UInt8) := do
  let ctx ← evpCtxNew
  match ctx with
  | none => do
    evpCtxFree none
    pure (-1, ciphertext, tag)
  | some ctx => do
    let out ← encryptWith state (some ctx) ciphertext tag
    evpCtxFree (some ctx)
    pure out

/-- The one call of `decrypt_once` passes it the stored ciphertext and tag; the return value comes
with the buffer as the call leaves it. -/
def decryptOnce (state : Backend) (plaintext : List UInt8) : Prog Evp (Int × List UInt8) := do
  let ctx ← evpCtxNew
  match ctx with
  | none => do
    evpCtxFree none
    pure (-1, plaintext)
  | some ctx => do
    let out ← decryptWith state (some ctx) plaintext
    evpCtxFree (some ctx)
    pure out

/-! ## The backend -/

def ofbBackendDestroy : Option Backend → Prog Evp Unit
  | none => pure ()
  | some state => do
    evpCtxFree state.ctx
    memFree state.aad.ptr
    memFree state.plaintext.ptr
    memFree state.ciphertext.ptr
    memFree state.output.ptr
    memFree (some state.self)

/-- What `calloc` returns for a buffer. -/
def zeroed (size : UInt64) : Option Ptr → Buffer
  | none => .null
  | some ptr => ⟨some ptr, List.replicate size.toNat 0⟩

/-- What `ofb_backend_create` allocates, before it checks that it got all of it. -/
def allocate (self : Ptr) (params : Params) : Prog Evp Backend := do
  let ctx ← evpCtxNew
  let aadSize := if params.aadSize = 0 then 1 else params.aadSize
  let aad ← calloc aadSize
  let plaintext ← malloc (if params.messageSize = 0 then 1 else params.messageSize)
  let ciphertext ← malloc (params.messageSize + 16)
  let output ← malloc (params.messageSize + 16)
  pure {
    self, ctx
    cipher := findCipher params.algorithm
    operation := params.operation
    key := List.replicate 32 0
    nonce := List.replicate nonceSize 0
    tag := List.replicate tagSize 0
    aad := zeroed aadSize aad
    plaintext := Block.buffer plaintext
    ciphertext := Block.buffer ciphertext
    output := Block.buffer output
    aadSize := params.aadSize
    messageSize := params.messageSize
    checksum := 0 }

/-- The plaintext, key and nonce `ofb_backend_create` writes. -/
def Backend.fillInputs (state : Backend) (params : Params) : Backend :=
  { state with
    plaintext := ⟨state.plaintext.ptr,
      fill 31 7 params.messageSize.toNat state.plaintext.bytes⟩
    key := fill 1 1 32 state.key
    nonce := fill 1 0xa0 nonceSize state.nonce }

/-- `*backend`, a pointer to a backend or NULL. -/
abbrev Cell := Option Backend

/-- What `ofb_backend_create` does once it has a `struct ofb_backend`. -/
def setUp (self : Ptr) (params : Params) (backend : Option Cell) :
    Prog Evp (Int × Option Cell) := do
  let state ← allocate self params
  if state.cipher = none ∨ state.ctx = none ∨ state.aad.ptr = none ∨ state.plaintext.ptr = none
      ∨ state.ciphertext.ptr = none ∨ state.output.ptr = none then do
    ofbBackendDestroy (some state)
    pure (-1, backend)
  else do
    let state := state.fillInputs params
    let (rc, ciphertext, tag) ← encryptOnce state state.ciphertext.bytes state.tag
    let state := { state with ciphertext := ⟨state.ciphertext.ptr, ciphertext⟩, tag := tag }
    if rc ≠ 0 then do
      ofbBackendDestroy (some state)
      pure (-1, backend)
    else pure (0, some (some state))

/-- `params` and `backend` are pointers that may be NULL; the return value comes with `*backend` as
the call leaves it. -/
def ofbBackendCreate (params : Option Params) (backend : Option Cell) :
    Prog Evp (Int × Option Cell) :=
  match params, backend with
  | some params, some _ =>
    if params.messageSize > intMax ∨ params.aadSize > intMax then pure (-1, backend) else do
      let self ← callocState
      match self with
      | none => pure (-1, backend)
      | some self => setUp self params backend
  | _, _ => pure (-1, backend)

/-- `state` with the bytes `output` at `state->output`. -/
def Backend.withOutput (state : Backend) (output : List UInt8) : Backend :=
  { state with output := ⟨state.output.ptr, output⟩ }

/-- The return value comes with `*state` as the call leaves it; `unset` is what the local array
`tag` holds before it is written. -/
def ofbBackendVerify (state : Backend) (unset : List UInt8) : Prog Evp (Int × Backend) := do
  let n := state.messageSize.toNat
  let (rc, output, tag) ← encryptOnce state state.output.bytes unset
  let state := state.withOutput output
  if rc ≠ 0 ∨ ¬ memEq state.output.bytes state.ciphertext.bytes n
      ∨ ¬ memEq tag state.tag tagSize then
    pure (-1, state)
  else do
    let (rc, output) ← decryptOnce state state.output.bytes
    let state := state.withOutput output
    if rc ≠ 0 ∨ ¬ memEq state.output.bytes state.plaintext.bytes n then pure (-1, state)
    else pure (0, state)

/-- The loop of `ofb_backend_run_batch`. -/
def batch (state : Backend) : ℕ → Prog Evp (Int × Backend)
  | 0 => pure (0, state)
  | iterations + 1 => do
    match state.operation with
    | .seal => do
      let (rc, output, tag) ← encryptWith state state.ctx state.output.bytes state.tag
      let state := { state.withOutput output with tag := tag }
      if rc ≠ 0 then pure (-1, state) else batch state iterations
    | .open => do
      let (rc, output) ← decryptWith state state.ctx state.output.bytes
      let state := state.withOutput output
      if rc ≠ 0 then pure (-1, state) else batch state iterations

/-- The return value comes with `*state` as the call leaves it. -/
def ofbBackendRunBatch (state : Backend) (iterations : UInt64) : Prog Evp (Int × Backend) := do
  let (rc, state) ← batch state iterations.toNat
  if rc ≠ 0 then pure (-1, state) else
    let last := state.output.bytes.getD
      (if state.messageSize = 0 then 0 else state.messageSize.toNat - 1) 0
    pure (0, { state with checksum := state.checksum ^^^ last })

/-! ## What the programs do with a backend -/

/-- A call made on a backend between its creation and its destruction; `unset` is what an
uninitialised array of a `verify` happens to hold. -/
inductive Use
  | verify (unset : List UInt8)
  | runBatch (iterations : UInt64)
  deriving DecidableEq, Repr

def Use.run (state : Backend) : Use → Prog Evp (Int × Backend)
  | .verify unset => ofbBackendVerify state unset
  | .runBatch iterations => ofbBackendRunBatch state iterations

/-- A sequence of calls on a backend, with what each of them returned. -/
def useAll (state : Backend) : List Use → Prog Evp (List Int × Backend)
  | [] => pure ([], state)
  | use :: uses => do
    let (rc, state) ← use.run state
    let (rcs, state) ← useAll state uses
    pure (rc :: rcs, state)

end OfbBench.Aead
