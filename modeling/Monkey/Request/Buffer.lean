import Monkey.Lib.Run
import Monkey.Request.Read

/-!
# Monkey.Request.Buffer

The memory behind the body of a session: `body_fixed` inside `struct client_session`,
and the heap block that takes its place when it is full.  `mk_handler_read` puts a NUL
behind the bytes received; a heap block has one byte more than `body_size` for it,
`body_fixed` has not.

The bytes of the session model (`mkHandlerRead`) are what this memory holds up to
`body_length`.
-/

namespace Monkey

/-! ## the memory -/

/-- The buffer fields of `struct client_session`; `heap` is the block `body` points to
once it has left `body_fixed`.  `received` are the bytes of the round so far, and `nuls`
the index of every NUL written with the size of its block, newest first. -/
structure BodyBuffer where
  bodyFixed : Bytes
  heap : Option Bytes := none
  bodySize : Nat
  bodyLength : Nat := 0
  received : Bytes := []
  nuls : List (Nat × Nat) := []
deriving DecidableEq, Repr

/-- The block `cs->body` points to. -/
def BodyBuffer.body (b : BodyBuffer) : Bytes := b.heap.getD b.bodyFixed

/-- Bytes copied into a block; what would fall behind its end is not part of it. -/
def storeAt (block : Bytes) (i : Nat) (bytes : Bytes) : Bytes :=
  (block.take i ++ bytes ++ block.drop (i + bytes.length)).take block.length

/-- Writing into the block of the body. -/
def BodyBuffer.store (b : BodyBuffer) (i : Nat) (bytes : Bytes) : BodyBuffer :=
  match b.heap with
  | none => { b with bodyFixed := storeAt b.bodyFixed i bytes }
  | some block => { b with heap := some (storeAt block i bytes) }

/-- `mk_session_create`: the bytes of a new session are whatever `malloc` found. -/
def BodyBuffer.create (junk : UInt8) : BodyBuffer :=
  { bodyFixed := List.replicate mkRequestChunk junk, bodySize := mkRequestChunk }

/-- The growth at the head of `mk_handler_read`; `none` closes the session. -/
def BodyBuffer.grow (cfg : Config) (reallocOk : Bool) (junk : UInt8) (b : BodyBuffer) :
    Option BodyBuffer :=
  if (b.bodySize : Int) - b.bodyLength ≤ 0 then
    let newSize := b.bodySize + mkRequestChunk
    if (newSize : Int) ≥ cfg.maxRequestSize then none
    else
      match b.heap with
      | none =>
          some { b with
            heap := some (storeAt (List.replicate (newSize + 1) junk) 0 (b.bodyFixed.take b.bodyLength))
            bodySize := newSize }
      | some block =>
          if reallocOk = true then
            some { b with
              heap := some (block ++ List.replicate (newSize + 1 - block.length) junk)
              bodySize := newSize }
          else none
  else some b

/-- The tail of `mk_handler_read` when the socket gave some bytes. -/
def BodyBuffer.append (b : BodyBuffer) (bytes : Bytes) : BodyBuffer :=
  let b := b.store b.bodyLength bytes
  let length := b.bodyLength + bytes.length
  { b.store length [0] with
    bodyLength := length
    received := b.received ++ bytes
    nuls := (length, b.body.length) :: b.nuls }

/-- `mk_handler_read` on the memory; `none` when the session is closed or removed. -/
def BodyBuffer.read (cfg : Config) (reallocOk : Bool) (junk : UInt8) (rd : SocketRead)
    (b : BodyBuffer) : Option BodyBuffer :=
  (b.grow cfg reallocOk junk).bind fun b =>
    match rd with
    | .again => some b
    | .error => none
    | .eof => none
    | .data bytes =>
        match bytes.take (b.bodySize - b.bodyLength) with
        | [] => none
        | c :: cs => some (b.append (c :: cs))

/-- `mk_request_ka_next`. -/
def BodyBuffer.kaNext (b : BodyBuffer) : BodyBuffer := { b with bodyLength := 0, received := [] }

/-- What happens to the buffer of a session. -/
inductive BufferOp
  | read (reallocOk : Bool) (junk : UInt8) (rd : SocketRead)
  | kaNext
deriving DecidableEq, Repr

def BodyBuffer.step (cfg : Config) (b : BodyBuffer) : BufferOp → Option BodyBuffer
  | .read reallocOk junk rd => b.read cfg reallocOk junk rd
  | .kaNext => some b.kaNext

def BodyBuffer.Step (cfg : Config) (b : BodyBuffer) (op : BufferOp) (b' : BodyBuffer) : Prop :=
  b.step cfg op = some b'

/-- The read does not fill `body_fixed` to its last byte. -/
def FixedHasRoom (b : BodyBuffer) : BufferOp → Prop
  | .read _ _ (.data bytes) =>
      b.heap = none → b.bodyLength < b.bodySize → bytes.length < b.bodySize - b.bodyLength
  | _ => True

instance (b : BodyBuffer) (op : BufferOp) : Decidable (FixedHasRoom b op) := by
  unfold FixedHasRoom
  split <;> infer_instance

/-! ## blocks -/

@[simp]
theorem storeAt_length (block : Bytes) (i : Nat) (bytes : Bytes) :
    (storeAt block i bytes).length = block.length := by
  simp only [storeAt, List.length_take, List.length_append, List.length_drop]
  omega

/-- What lies before the bytes written stays. -/
theorem take_storeAt_of_le {block : Bytes} {i n : Nat} (bytes : Bytes) (hn : n ≤ i)
    (hi : i ≤ block.length) : (storeAt block i bytes).take n = block.take n := by
  rw [storeAt, List.take_take, List.append_assoc, List.take_append_of_le_length, List.take_take]
  · congr 1
    omega
  · rw [List.length_take]
    omega

/-- The bytes written follow what lies before them. -/
theorem take_storeAt_add {block : Bytes} {i : Nat} {bytes : Bytes}
    (h : i + bytes.length ≤ block.length) :
    (storeAt block i bytes).take (i + bytes.length) = block.take i ++ bytes := by
  have hlen : (block.take i ++ bytes).length = i + bytes.length := by
    rw [List.length_append, List.length_take]
    omega
  rw [storeAt, List.take_take, min_eq_left h, List.take_append_of_le_length hlen.ge, ← hlen,
    List.take_length]

@[simp]
theorem BodyBuffer.store_body (b : BodyBuffer) (i : Nat) (bytes : Bytes) :
    (b.store i bytes).body = storeAt b.body i bytes := by
  cases h : b.heap <;> simp [store, body, h]

@[simp]
theorem BodyBuffer.store_heap_isSome (b : BodyBuffer) (i : Nat) (bytes : Bytes) :
    (b.store i bytes).heap.isSome = b.heap.isSome := by
  cases h : b.heap <;> simp [store, h]

@[simp]
theorem BodyBuffer.store_counts (b : BodyBuffer) (i : Nat) (bytes : Bytes) :
    (b.store i bytes).bodySize = b.bodySize ∧ (b.store i bytes).bodyLength = b.bodyLength ∧
      (b.store i bytes).received = b.received ∧ (b.store i bytes).nuls = b.nuls := by
  cases h : b.heap <;> simp [store, h]

theorem BodyBuffer.append_body (b : BodyBuffer) (bytes : Bytes) :
    (b.append bytes).body = storeAt (storeAt b.body b.bodyLength bytes)
      (b.bodyLength + bytes.length) [0] := by
  have hlength := (b.store_counts b.bodyLength bytes).2.1
  have hstore := (b.store b.bodyLength bytes).store_body (b.bodyLength + bytes.length) [0]
  rw [b.store_body] at hstore
  rw [← hstore]
  simp only [append, body, hlength]

/-! ## the invariant -/

/-- The block is as large as `body_size` says, with one byte more on the heap, the heap
is only used below `max_request_size`, and the block starts with the bytes received. -/
structure BufferOk (cfg : Config) (b : BodyBuffer) : Prop where
  block : b.body.length = b.bodySize + b.heap.isSome.toNat
  grown : b.heap.isSome = true → (b.bodySize : Int) < cfg.maxRequestSize
  fits : b.bodyLength ≤ b.bodySize
  content : b.body.take b.bodyLength = b.received

theorem BufferOk.create (cfg : Config) (junk : UInt8) : BufferOk cfg (.create junk) :=
  ⟨by simp [BodyBuffer.create, BodyBuffer.body], by simp [BodyBuffer.create],
    by simp [BodyBuffer.create], by simp [BodyBuffer.create]⟩

/-- Growing keeps the bytes, wherever they move. -/
theorem BufferOk.grow {cfg : Config} {reallocOk : Bool} {junk : UInt8} {b b' : BodyBuffer}
    (h : BufferOk cfg b) (hgrow : b.grow cfg reallocOk junk = some b') :
    BufferOk cfg b' ∧ b'.bodyLength < b'.bodySize ∧ b'.bodyLength = b.bodyLength ∧
      b'.received = b.received ∧ b'.nuls = b.nuls ∧
      (b'.heap.isSome = true ↔ b.heap.isSome = true ∨ b.bodyLength = b.bodySize) ∧
      (b'.heap.isSome = false → b'.bodySize = b.bodySize) := by
  have hfits := h.fits
  have hblock := h.block
  have hcontent := h.content
  unfold BodyBuffer.grow at hgrow
  split at hgrow
  · next hfull =>
      have hlen : b.bodyLength = b.bodySize := by omega
      obtain ⟨hmax, hgrow⟩ := Option.ite_none_left_eq_some.mp hgrow
      cases hheap : b.heap with
      | none =>
          simp only [hheap, Option.some.injEq] at hgrow
          subst hgrow
          simp only [BodyBuffer.body, hheap, Option.getD_none, Option.isSome_none, Bool.toNat_false,
            add_zero] at hblock hcontent
          have hcopied : (b.bodyFixed.take b.bodyLength).length = b.bodyLength := by
            rw [List.length_take]
            omega
          refine ⟨⟨by simp [BodyBuffer.body], fun _ => by simpa using hmax, by simp; omega, ?_⟩,
            by simp [mkRequestChunk]; omega, rfl, rfl, rfl, by simp [hlen], by simp⟩
          have hstore := @take_storeAt_add (List.replicate (b.bodySize + mkRequestChunk + 1) junk) 0
            (b.bodyFixed.take b.bodyLength) (by rw [hcopied, List.length_replicate]; omega)
          rw [hcopied, zero_add, List.take_zero, List.nil_append] at hstore
          simpa [BodyBuffer.body] using hstore.trans hcontent
      | some block =>
          simp only [hheap, Option.ite_none_right_eq_some, Option.some.injEq] at hgrow
          obtain ⟨-, hgrow⟩ := hgrow
          subst hgrow
          simp only [BodyBuffer.body, hheap, Option.getD_some, Option.isSome_some, Bool.toNat_true]
            at hblock hcontent
          refine ⟨⟨?_, fun _ => by simpa using hmax, by simp; omega, ?_⟩,
            by simp [mkRequestChunk]; omega, rfl, rfl, rfl, by simp, by simp⟩
          · simp [BodyBuffer.body]
            omega
          · simp only [BodyBuffer.body, Option.getD_some]
            rw [List.take_append_of_le_length (by omega), hcontent]
  · next hroom =>
      obtain rfl := Option.some.inj hgrow
      have hne : b.bodyLength ≠ b.bodySize := by omega
      exact ⟨h, by omega, rfl, rfl, rfl, by simp [hne], fun _ => rfl⟩

/-- The bytes of a read go behind those received; the NUL behind them falls out of the
block exactly when they fill `body_fixed`. -/
theorem BufferOk.append {cfg : Config} {b : BodyBuffer} {bytes : Bytes} (h : BufferOk cfg b)
    (hbytes : b.bodyLength + bytes.length ≤ b.bodySize) :
    BufferOk cfg (b.append bytes) ∧
      ((∀ nul ∈ (b.append bytes).nuls, nul.1 < nul.2) ↔
        (b.heap.isSome = true ∨ b.bodyLength + bytes.length < b.bodySize) ∧
          ∀ nul ∈ b.nuls, nul.1 < nul.2) := by
  have hblock := h.block
  have hheap : (b.append bytes).heap.isSome = b.heap.isSome := by simp [BodyBuffer.append]
  have hsize : (b.append bytes).bodySize = b.bodySize := by simp [BodyBuffer.append]
  have hlength : (b.append bytes).bodyLength = b.bodyLength + bytes.length := by
    simp [BodyBuffer.append]
  have hnuls : (b.append bytes).nuls = (b.bodyLength + bytes.length, b.body.length) :: b.nuls := by
    simp [BodyBuffer.append]
  refine ⟨⟨?_, ?_, ?_, ?_⟩, ?_⟩
  · rw [BodyBuffer.append_body, hheap, hsize, storeAt_length, storeAt_length, hblock]
  · rw [hheap, hsize]
    exact h.grown
  · rw [hlength, hsize]
    exact hbytes
  · have hreceived : (b.append bytes).received = b.received ++ bytes := by simp [BodyBuffer.append]
    rw [BodyBuffer.append_body, hlength, hreceived, take_storeAt_of_le _ le_rfl (by simp; omega),
      take_storeAt_add (by omega), h.content]
  · rw [hnuls, List.forall_mem_cons, hblock]
    refine and_congr_left fun _ => ?_
    cases b.heap.isSome <;> simp
    omega

/-- What a step does: the invariant stays, and the NULs written so far stay inside
exactly when they were and the step leaves room in `body_fixed`. -/
theorem BufferOk.step {cfg : Config} {b b' : BodyBuffer} {op : BufferOp} (h : BufferOk cfg b)
    (hstep : b.Step cfg op b') :
    BufferOk cfg b' ∧ ((∀ nul ∈ b'.nuls, nul.1 < nul.2) ↔
      FixedHasRoom b op ∧ ∀ nul ∈ b.nuls, nul.1 < nul.2) := by
  cases op with
  | kaNext =>
      obtain rfl := Option.some.inj hstep
      exact ⟨⟨h.block, h.grown, Nat.zero_le _, rfl⟩, by simp [BodyBuffer.kaNext, FixedHasRoom]⟩
  | read reallocOk junk rd =>
      obtain ⟨b₁, hgrow, hread⟩ := Option.bind_eq_some_iff.mp hstep
      obtain ⟨hb₁, hroom, hlength, -, hnuls, hheap, hsize⟩ := h.grow hgrow
      cases rd with
      | again =>
          obtain rfl := Option.some.inj hread
          exact ⟨hb₁, by simp [FixedHasRoom, hnuls]⟩
      | eof => contradiction
      | error => contradiction
      | data bytes =>
          simp only at hread
          cases htake : bytes.take (b₁.bodySize - b₁.bodyLength) with
          | nil => simp [htake] at hread
          | cons c cs =>
              simp only [htake, Option.some.injEq] at hread
              subst hread
              have hlen := congrArg List.length htake
              rw [List.length_take] at hlen
              obtain ⟨hok, hnul⟩ := @BufferOk.append cfg b₁ (c :: cs) hb₁ (by omega)
              refine ⟨hok, hnul.trans ?_⟩
              rw [hnuls]
              refine and_congr_left fun _ => ?_
              have hfits := h.fits
              have hnone : b.heap = none ↔ b.heap.isSome = false := by cases b.heap <;> simp
              simp only [FixedHasRoom, hnone]
              cases hsome : b₁.heap.isSome with
              | true =>
                  have hbefore := hheap.mp hsome
                  simp only [true_or, true_iff]
                  intro hfixed hless
                  rcases hbefore with hb | hb
                  · simp [hb] at hfixed
                  · omega
              | false =>
                  have hsame := hsize hsome
                  have hbefore := mt hheap.mpr (by simp [hsome])
                  rw [not_or] at hbefore
                  have hfixed : b.heap.isSome = false := by simpa using hbefore.1
                  simp only [Bool.false_eq_true, false_or, hfixed, true_imp_iff]
                  constructor
                  · intro hlt _
                    omega
                  · intro hlt
                    have := hlt (by omega)
                    omega

/-! ## the session over the memory -/

/-- The session model sees the block up to `body_length`. -/
structure BodyBuffer.Holds (b : BodyBuffer) (cs : ClientSession) : Prop where
  body : cs.body = b.body.take b.bodyLength
  size : cs.bodySize = b.bodySize
  fixed : cs.bodyFixed = b.heap.isNone

theorem BodyBuffer.Holds.length {cfg : Config} {b : BodyBuffer} {cs : ClientSession}
    (h : b.Holds cs) (hok : BufferOk cfg b) : cs.bodyLength = b.bodyLength := by
  have hblock := hok.block
  have hfits := hok.fits
  rw [ClientSession.bodyLength, h.body, List.length_take]
  omega

/-- Both grow together. -/
theorem BodyBuffer.Holds.grow {cfg : Config} {reallocOk : Bool} {junk : UInt8} {b : BodyBuffer}
    {cs cs' : ClientSession} (h : b.Holds cs) (hok : BufferOk cfg b)
    (hgrow : mkHandlerReadGrow cfg reallocOk cs = .ok cs') :
    ∃ b', b.grow cfg reallocOk junk = some b' ∧ b'.Holds cs' := by
  have hcontent : ∀ b', b.grow cfg reallocOk junk = some b' → cs.body = b'.body.take b'.bodyLength := by
    intro b' hb'
    obtain ⟨hok', -, -, hreceived, -⟩ := hok.grow hb'
    rw [hok'.content, hreceived, ← hok.content, h.body]
  unfold mkHandlerReadGrow at hgrow
  rw [h.size, h.length hok] at hgrow
  unfold BodyBuffer.grow at hcontent ⊢
  by_cases hfull : (b.bodySize : Int) - b.bodyLength ≤ 0
  · simp only [if_pos hfull] at hcontent hgrow ⊢
    by_cases hmax : ((b.bodySize + mkRequestChunk : Nat) : Int) ≥ cfg.maxRequestSize
    · simp only [if_pos hmax, reduceCtorEq] at hgrow
    · simp only [if_neg hmax] at hcontent hgrow ⊢
      cases hheap : b.heap with
      | none =>
          have hfixed : cs.bodyFixed = true := by simp [h.fixed, hheap]
          simp only [hheap] at hcontent
          simp only [hfixed, if_true, Except.ok.injEq] at hgrow
          subst hgrow
          exact ⟨_, rfl, hcontent _ rfl, rfl, rfl⟩
      | some block =>
          have hfixed : cs.bodyFixed = false := by simp [h.fixed, hheap]
          simp only [hheap] at hcontent
          cases reallocOk with
          | true =>
              simp only [hfixed, Bool.false_eq_true, if_false, if_true, Except.ok.injEq] at hgrow
              subst hgrow
              exact ⟨_, rfl, hcontent _ rfl, rfl, rfl⟩
          | false => simp [hfixed] at hgrow
  · simp only [if_neg hfull, Except.ok.injEq] at hgrow ⊢
    subst hgrow
    exact ⟨b, rfl, h⟩

/-- **Refinement**: the read of the session model is the one of the memory. -/
theorem BodyBuffer.Holds.read {cfg : Config} {reallocOk : Bool} {junk : UInt8} {rd : SocketRead}
    {b : BodyBuffer} {cs cs' : ClientSession} {ret : Int} (h : b.Holds cs) (hok : BufferOk cfg b)
    (hread : mkHandlerRead cfg reallocOk rd cs = .done ret cs') :
    ∃ b', b.read cfg reallocOk junk rd = some b' ∧ b'.Holds cs' := by
  unfold mkHandlerRead at hread
  cases hgrow : mkHandlerReadGrow cfg reallocOk cs with
  | error status => simp [hgrow] at hread
  | ok cs₁ =>
      obtain ⟨b₁, hb₁, hholds⟩ := @BodyBuffer.Holds.grow cfg reallocOk junk b cs cs₁ h hok hgrow
      obtain ⟨hok₁, -⟩ := hok.grow hb₁
      have hlength := hholds.length hok₁
      simp only [hgrow] at hread
      rw [BodyBuffer.read, hb₁, Option.bind_some]
      cases rd with
      | again =>
          obtain ⟨-, rfl⟩ := HandlerRead.done.inj hread
          exact ⟨b₁, rfl, hholds⟩
      | eof => contradiction
      | error => contradiction
      | data bytes =>
          simp only [hholds.size, hlength] at hread ⊢
          cases htake : bytes.take (b₁.bodySize - b₁.bodyLength) with
          | nil => simp [htake] at hread
          | cons c rest =>
              simp only [htake, HandlerRead.done.injEq] at hread
              obtain ⟨-, rfl⟩ := hread
              have hlen := congrArg List.length htake
              rw [List.length_take] at hlen
              have hfits := hok₁.fits
              obtain ⟨happ, -⟩ := @BufferOk.append cfg b₁ (c :: rest) hok₁ (by omega)
              refine ⟨_, rfl, ?_, ?_, ?_⟩
              · rw [happ.content, hholds.body, hok₁.content]
                simp [BodyBuffer.append]
              · simp [BodyBuffer.append]
              · simp [BodyBuffer.append, hholds.fixed, ← Option.not_isSome]

/-! ## whole sessions -/

/-- The NULs of a run stay inside exactly when every read left room in `body_fixed`. -/
theorem BufferOk.run {cfg : Config} {ops : List BufferOp} {b b' : BodyBuffer} (h : BufferOk cfg b)
    (hrun : Run (BodyBuffer.Step cfg) b ops b') :
    BufferOk cfg b' ∧ ((∀ nul ∈ b'.nuls, nul.1 < nul.2) ↔
      Run (Guarded FixedHasRoom (BodyBuffer.Step cfg)) b ops b' ∧ ∀ nul ∈ b.nuls, nul.1 < nul.2) := by
  induction hrun with
  | nil b => exact ⟨h, fun hnuls => ⟨.nil b, hnuls⟩, fun hnuls => hnuls.2⟩
  | cons hstep _ ih =>
      obtain ⟨h₁, hone⟩ := h.step hstep
      obtain ⟨h', hrest⟩ := ih h₁
      refine ⟨h', hrest.trans ⟨?_, ?_⟩⟩
      · rintro ⟨hguarded, hnuls⟩
        obtain ⟨hroom, hbefore⟩ := hone.mp hnuls
        exact ⟨.cons ⟨hroom, hstep⟩ hguarded, hbefore⟩
      · rintro ⟨hguarded, hnuls⟩
        cases hguarded with
        | cons hfirst hlater =>
            obtain rfl := Option.some.inj (hfirst.2.symm.trans hstep)
            exact ⟨hlater, hone.mpr ⟨hfirst.1, hnuls⟩⟩

/-- Every session: the length stays within the size, the block starts with the bytes
received in this round, a grown buffer stays below `max_request_size`; and the NULs are
written inside the block exactly when no read fills `body_fixed`. -/
theorem body_buffer_iff {cfg : Config} {junk : UInt8} {ops : List BufferOp} {b : BodyBuffer}
    (h : Run (BodyBuffer.Step cfg) (.create junk) ops b) :
    b.bodyLength ≤ b.bodySize ∧ b.body.take b.bodyLength = b.received ∧
      (b.heap.isSome = true → (b.bodySize : Int) < cfg.maxRequestSize) ∧
      ((∀ nul ∈ b.nuls, nul.1 < nul.2) ↔
        Run (Guarded FixedHasRoom (BodyBuffer.Step cfg)) (.create junk) ops b) := by
  obtain ⟨hok, hnuls⟩ := (BufferOk.create cfg junk).run h
  exact ⟨hok.fits, hok.content, hok.grown, hnuls.trans (and_iff_left (by simp [BodyBuffer.create]))⟩

/-- A read that finds room for all its bytes. -/
theorem BodyBuffer.read_append {cfg : Config} {reallocOk : Bool} {junk : UInt8} {b : BodyBuffer}
    {bytes : Bytes} (hbytes : bytes ≠ []) (hroom : bytes.length ≤ b.bodySize - b.bodyLength) :
    b.Step cfg (.read reallocOk junk (.data bytes)) (b.append bytes) := by
  have hpos := List.length_pos_iff.mpr hbytes
  rw [BodyBuffer.Step, BodyBuffer.step, BodyBuffer.read, BodyBuffer.grow, if_neg (by omega),
    Option.bind_some]
  simp only [List.take_of_length_le hroom]
  cases bytes with
  | nil => contradiction
  | cons c cs => rfl

/-- A request of a few bytes in two reads. -/
theorem body_buffer_two_reads :
    ∃ b, Run (BodyBuffer.Step sampleConfig) (.create 0)
      [.read true 0 (.data [71, 69]), .read true 0 (.data [84])] b ∧
      b.body.take b.bodyLength = b.received ∧ ∀ nul ∈ b.nuls, nul.1 < nul.2 := by
  have hfirst := @BodyBuffer.read_append sampleConfig true 0 (.create 0) [71, 69] (by simp) (by decide)
  have hlength : ((BodyBuffer.create 0).append [71, 69]).bodyLength = 2 := by
    simp [BodyBuffer.append, BodyBuffer.create]
  have hsize : ((BodyBuffer.create 0).append [71, 69]).bodySize = 4096 := by
    simp [BodyBuffer.append, BodyBuffer.create, mkRequestChunk, -List.reduceReplicate]
  have hsecond := @BodyBuffer.read_append sampleConfig true 0
    ((BodyBuffer.create 0).append [71, 69]) [84] (by simp) (by simp [hlength, hsize])
  have hrun := Run.cons hfirst (.cons hsecond (.nil _))
  have hguarded : Run (Guarded FixedHasRoom (BodyBuffer.Step sampleConfig)) (.create 0)
      [.read true 0 (.data [71, 69]), .read true 0 (.data [84])]
      (((BodyBuffer.create 0).append [71, 69]).append [84]) := by
    refine .cons ⟨fun _ _ => by decide, hfirst⟩ (.cons ⟨fun _ _ => ?_, hsecond⟩ (.nil _))
    simp [hlength, hsize]
  obtain ⟨-, hcontent, -, hnuls⟩ := body_buffer_iff hrun
  exact ⟨_, hrun, hcontent, hnuls.mpr hguarded⟩

/-- A read of 4096 bytes fills `body_fixed`, and the NUL is written behind it. -/
theorem body_fixed_overrun :
    ¬ ∀ (cfg : Config) (junk : UInt8) (ops : List BufferOp) (b : BodyBuffer),
      Run (BodyBuffer.Step cfg) (.create junk) ops b → ∀ nul ∈ b.nuls, nul.1 < nul.2 := by
  intro h
  have hlen : (List.replicate mkRequestChunk (65 : UInt8)).length = mkRequestChunk :=
    List.length_replicate
  have hread := @BodyBuffer.read_append sampleConfig true 0 (.create 0)
    (List.replicate mkRequestChunk 65) (List.ne_nil_of_length_pos (by rw [hlen]; decide)) hlen.le
  have hnuls := h _ 0 _ _ (.cons hread (.nil _))
  obtain ⟨hroom, -⟩ := ((BufferOk.create sampleConfig 0).step hread).2.mp hnuls
  have hless := hroom rfl (by decide)
  rw [hlen] at hless
  exact absurd hless (by decide)

end Monkey
