import OfbBench.Runner

/-!
# The interface of the backends

`include/ofb/bench.h` and `include/ofb/tls_bench.h`: what a backend is created from, and the buffers
backends work on.
-/

namespace OfbBench

/-- `struct ofb_backend_info` and `struct ofb_tls_backend_info`; `algorithms` are the ciphers of
the latter. -/
structure BackendInfo where
  name : String
  version : String
  algorithms : List String

namespace Aead

inductive Operation
  | seal
  | «open»
  deriving DecidableEq, Repr

/-- `struct ofb_params`. -/
structure Params where
  algorithm : String
  operation : Operation
  messageSize : UInt64
  aadSize : UInt64
  deriving DecidableEq

end Aead

namespace Tls

inductive Benchmark
  | handshake
  | transfer
  deriving DecidableEq, Repr

/-- `struct ofb_tls_params`. -/
structure Params where
  cipher : String
  certificatePath : String
  privateKeyPath : String
  benchmark : Benchmark
  messageSize : UInt64
  deriving DecidableEq

end Tls

/-- What `malloc` and `calloc` return for a buffer when they succeed. -/
structure Block (size : ℕ) where
  ptr : Ptr
  bytes : List UInt8
  length_bytes : bytes.length = size

theorem length_zeros (size : ℕ) : (List.replicate size (0 : UInt8)).length = size :=
  List.length_replicate

/-- A block of zeros. -/
def Block.zeros (size : ℕ) (ptr : Ptr) : Block size :=
  ⟨ptr, List.replicate size 0, length_zeros size⟩

/-- A buffer of a backend: its address, `none` for NULL, and its bytes. -/
structure Buffer where
  ptr : Option Ptr
  bytes : List UInt8
  deriving DecidableEq, Repr

def Buffer.null : Buffer := ⟨none, []⟩

def Block.buffer {size : ℕ} : Option (Block size) → Buffer
  | none => .null
  | some block => ⟨some block.ptr, block.bytes⟩

theorem buffer_ptr_ne_none {size : ℕ} {block : Option (Block size)} (h : block ≠ none) :
    (Block.buffer block).ptr ≠ none := by
  rcases block with _ | block
  · exact absurd rfl h
  · exact Option.some_ne_none _

theorem length_of_buffer {size : ℕ} {block : Option (Block size)}
    (h : (Block.buffer block).ptr ≠ none) : (Block.buffer block).bytes.length = size := by
  rcases block with _ | block
  · exact absurd rfl h
  · exact block.length_bytes

/-! The backends allocate `n ? n : 1` bytes for `n` bytes of data. -/

theorem orOne_ne_zero (n : UInt64) : (if n = 0 then 1 else n) ≠ 0 := by
  split_ifs with h
  · decide
  · exact h

theorem toNat_le_orOne (n : UInt64) : n.toNat ≤ (if n = 0 then 1 else n).toNat := by
  split_ifs with h
  · rw [h]
    decide
  · exact le_refl _

theorem buffer_room {n : UInt64} {block : Option (Block (if n = 0 then 1 else n).toNat)}
    (h : (Block.buffer block).ptr ≠ none) : n.toNat ≤ (Block.buffer block).bytes.length := by
  rw [length_of_buffer h]
  exact toNat_le_orOne n

/-- `bytes` after `data` is written from `offset` on. -/
def splice (bytes : List UInt8) (offset : ℕ) (data : List UInt8) : List UInt8 :=
  bytes.take offset ++ data ++ bytes.drop (offset + data.length)

/-- `CRYPTO_memcmp(a, b, len) == 0`. -/
def memEq (a b : List UInt8) (len : ℕ) : Bool := a.take len = b.take len

/-- `for (i = 0; i < size; i++) bytes[i] = (unsigned char) (i * factor + first);` -/
def fill (factor first : UInt64) (size : ℕ) (bytes : List UInt8) : List UInt8 :=
  (List.range size).foldl (fun bs i => bs.set i (UInt64.ofNat i * factor + first).toUInt8) bytes

section Splice

variable {bytes data : List UInt8} {offset : ℕ}

theorem length_splice (h : offset + data.length ≤ bytes.length) :
    (splice bytes offset data).length = bytes.length := by
  unfold splice
  rw [List.length_append, List.length_append, List.length_take, List.length_drop]
  omega

/-- A write that goes on from a prefix extends it. -/
theorem take_splice (h : offset ≤ bytes.length) :
    (splice bytes offset data).take (offset + data.length) = bytes.take offset ++ data := by
  unfold splice
  rw [List.take_left']
  rw [List.length_append, List.length_take]
  omega

@[simp] theorem splice_nil : splice bytes offset [] = bytes := by
  unfold splice
  rw [List.append_nil, List.length_nil, Nat.add_zero, List.take_append_drop]

@[simp] theorem length_fill (factor first : UInt64) (size : ℕ) (bytes : List UInt8) :
    (fill factor first size bytes).length = bytes.length := by
  unfold fill
  induction List.range size generalizing bytes with
  | nil => rfl
  | cons i is ih => rw [List.foldl_cons, ih, List.length_set]

end Splice

end OfbBench
