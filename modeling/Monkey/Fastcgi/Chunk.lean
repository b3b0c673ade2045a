import Monkey.Lib.CString

/-!
# Monkey.Fastcgi.Chunk

The receive buffers and the output vectors of the FastCGI plugin (`chunk.c`).

A chunk is known by the bytes written to it, an output vector by the bytes its
entries point to: the memory behind an entry is not written again while the entry
is held.  Memory is always granted.

The references to a chunk are left out here, and with them the question when it is freed: they
are counted in `Monkey.Fastcgi.RecvMemory` and `Monkey.Fastcgi.ChunkHolders`.
-/

namespace Monkey.Fastcgi

/-! ## chunks -/

/-- `offsetof(struct chunk, data)`. -/
def chunkHead : Nat := 44

/-- `CHUNK_SIZE(8192)`: what a chunk of the usual size holds. -/
def chunkSize : Nat := 8192 - chunkHead

/-- `struct chunk`: `data` are the `write` bytes written. -/
structure Chunk where
  size : Nat
  data : Bytes := []
  read : Nat := 0
deriving DecidableEq, Repr

def Chunk.write (c : Chunk) : Nat := c.data.length

/-- `chunk_new` with the size of the data. -/
def chunkNew (size : Nat) : Chunk := { size := size }

/-- `chunk_read_ptr`: the bytes written and not read. -/
def chunkReadPtr (c : Chunk) : Bytes := c.data.drop c.read

/-- `chunk_write_ptr(c).len`. -/
def chunkWriteLen (c : Chunk) : Nat := c.size - c.write

/-! ## output vectors -/

/-- `UIO_MAXIOV`. -/
def uioMaxiov : Nat := 1024

/-- `struct chunk_iov`: the entries below `index`, and the number allowed. -/
structure ChunkIov where
  io : List Bytes := []
  size : Nat := 4
deriving DecidableEq, Repr

def ChunkIov.index (iov : ChunkIov) : Nat := iov.io.length

/-- All the bytes of the entries, in order. -/
def ChunkIov.bytes (iov : ChunkIov) : Bytes := iov.io.flatten

/-- `chunk_iov_length`. -/
def chunkIovLength (iov : ChunkIov) : Nat := (iov.io.map List.length).sum

/-- `chunk_iov_resize`. -/
def chunkIovResize (iov : ChunkIov) (size : Nat) : Option ChunkIov :=
  if size ≤ uioMaxiov then some { iov with size := size } else none

/-- `chunk_iov_add` and `chunk_iov_add_ptr`. -/
def chunkIovAdd (iov : ChunkIov) (bytes : Bytes) : Option ChunkIov :=
  if iov.index < iov.size ∧ 0 < bytes.length then some { iov with io := iov.io ++ [bytes] } else none

/-- The loop of `chunk_iov_drop`. -/
def dropEntries : List Bytes → Nat → List Bytes
  | [], _ => []
  | io :: rest, bytes =>
      if bytes = 0 then io :: rest
      else if io.length < bytes then [] :: dropEntries rest (bytes - io.length)
      else io.drop bytes :: rest

/-- `chunk_iov_drop`. -/
def chunkIovDrop (iov : ChunkIov) (bytes : Nat) : Option ChunkIov :=
  if 0 < bytes ∧ bytes ≤ chunkIovLength iov then some { iov with io := dropEntries iov.io bytes }
  else none

/-- `chunk_iov_reset`. -/
def chunkIovReset (iov : ChunkIov) : ChunkIov := { iov with io := [] }

@[simp]
theorem chunkIovReset_io (iov : ChunkIov) : (chunkIovReset iov).io = [] := rfl

@[simp]
theorem chunkIovReset_bytes (iov : ChunkIov) : (chunkIovReset iov).bytes = [] := rfl

theorem chunkIovLength_eq (iov : ChunkIov) : chunkIovLength iov = iov.bytes.length :=
  (List.length_flatten ..).symm

/-- Dropping goes entry by entry through the concatenation. -/
theorem flatten_dropEntries (io : List Bytes) (bytes : Nat) :
    (dropEntries io bytes).flatten = io.flatten.drop bytes := by
  fun_induction dropEntries io bytes with
  | case1 => simp
  | case2 io rest => simp
  | case3 io rest bytes h0 hlt ih =>
      rw [List.flatten_cons, ih, List.flatten_cons, List.drop_append, List.nil_append,
        List.drop_eq_nil_of_le hlt.le, List.nil_append]
  | case4 io rest bytes h0 hge =>
      rw [List.flatten_cons, List.flatten_cons, List.drop_append_of_le_length (by omega)]

theorem length_dropEntries (io : List Bytes) (bytes : Nat) :
    (dropEntries io bytes).length = io.length := by
  fun_induction dropEntries io bytes <;> simp_all

theorem chunkIovDrop_eq_some {iov iov' : ChunkIov} {bytes : Nat} (h : chunkIovDrop iov bytes = some iov') :
    iov'.bytes = iov.bytes.drop bytes ∧ iov'.size = iov.size ∧ iov'.index = iov.index := by
  unfold chunkIovDrop at h
  split at h
  · obtain rfl := Option.some.inj h
    exact ⟨flatten_dropEntries .., rfl, length_dropEntries ..⟩
  · contradiction

theorem chunkIovAdd_eq_some {iov iov' : ChunkIov} {bytes : Bytes}
    (h : chunkIovAdd iov bytes = some iov') :
    iov.index < iov.size ∧ 0 < bytes.length ∧ iov' = { iov with io := iov.io ++ [bytes] } := by
  unfold chunkIovAdd at h
  split at h
  · next hc => exact ⟨hc.1, hc.2, (Option.some.inj h).symm⟩
  · contradiction

end Monkey.Fastcgi
