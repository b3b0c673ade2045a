import Monkey.Fastcgi.RecvMemory

/-!
# Monkey.Fastcgi.ChunkHolders

The chunks of a worker thread with all that holds them: the connections, each with its
current chunk, and the output vectors of the requests, entry by entry.

What a connection receives goes the way of `RecvMem`, one connection at a time; the
packages go to the vectors, and between two calls the vectors are sent and given up.
The state of a request is in the labels, as far as the handler asks for it.
-/

namespace Monkey.Fastcgi

/-! ## output vectors -/

/-- `struct chunk_ref`. -/
inductive ChunkRef
  | null
  | uint8
  | chunk (p : Nat)
deriving DecidableEq, Repr

/-- The chunk that a reference names. -/
def ChunkRef.chunk? : ChunkRef → Option Nat
  | .chunk p => some p
  | _ => none

/-- An entry of a vector: the reference it holds, and where its bytes are in the memory of
that, `none` for `NULL`. -/
structure HeldEntry where
  ref : ChunkRef
  base : Option Nat
  len : Nat
deriving DecidableEq, Repr

/-- `struct chunk_iov`: the entries below `index`. -/
structure HeldVec where
  entries : List HeldEntry := []
  size : Nat := 4
deriving DecidableEq, Repr

namespace HeldVec

/-- The chunks that the entries hold. -/
def chunks (v : HeldVec) : List Nat := v.entries.filterMap fun e => e.ref.chunk?

/-- `chunk_iov_add`; the chunk is retained by the caller of this. -/
def chunkIovAdd (v : HeldVec) (p base len : Nat) : Option HeldVec :=
  if v.entries.length < v.size ∧ 0 < len then
    some { v with entries := v.entries ++ [{ ref := .chunk p, base := some base, len := len }] }
  else none

/-- `chunk_iov_add_ptr`. -/
def chunkIovAddPtr (v : HeldVec) (len : Nat) (doFree : Bool) : Option HeldVec :=
  if v.entries.length < v.size ∧ 0 < len then
    some { v with entries := v.entries ++ [{ ref := if doFree then .uint8 else .null, base := some 0, len := len }] }
  else none

/-- `chunk_iov_resize`; `granted` is the answer to its memory requests. -/
def chunkIovResize (v : HeldVec) (size : Nat) (granted : Bool) : Option HeldVec :=
  if size ≤ uioMaxiov ∧ granted = true then some { v with size := size } else none

/-- The loop of `chunk_iov_drop`. -/
def dropLoop : List HeldEntry → Nat → List HeldEntry
  | [], _ => []
  | e :: rest, bytes =>
      if bytes = 0 then e :: rest
      else if e.len < bytes then { e with base := none, len := 0 } :: dropLoop rest (bytes - e.len)
      else { e with base := e.base.map (· + bytes), len := e.len - bytes } :: rest

/-- `chunk_iov_drop`. -/
def chunkIovDrop (v : HeldVec) (bytes : Nat) : HeldVec :=
  if 0 < bytes ∧ bytes ≤ (v.entries.map (·.len)).sum then { v with entries := dropLoop v.entries bytes } else v

/-- `chunk_iov_reset`, without the releases. -/
def chunkIovReset (v : HeldVec) : HeldVec := { v with entries := [] }

theorem chunks_chunkIovAdd {v v' : HeldVec} {p base len : Nat} (h : v.chunkIovAdd p base len = some v') :
    v'.chunks = v.chunks ++ [p] := by
  unfold chunkIovAdd at h
  split at h
  · obtain rfl := Option.some.inj h
    rw [chunks, List.filterMap_append]
    rfl
  · contradiction

theorem chunks_chunkIovAddPtr {v v' : HeldVec} {len : Nat} {doFree : Bool} (h : v.chunkIovAddPtr len doFree = some v') :
    v'.chunks = v.chunks := by
  unfold chunkIovAddPtr at h
  split at h
  · obtain rfl := Option.some.inj h
    rw [chunks, List.filterMap_append, chunks]
    cases doFree <;> exact List.append_nil _
  · contradiction

theorem chunks_chunkIovResize {v v' : HeldVec} {size : Nat} {granted : Bool} (h : v.chunkIovResize size granted = some v') :
    v'.chunks = v.chunks := by
  unfold chunkIovResize at h
  split at h
  · obtain rfl := Option.some.inj h
    rfl
  · contradiction

/-- An entry that was partly sent, or whole, keeps its reference. -/
theorem chunks_chunkIovDrop (v : HeldVec) (bytes : Nat) : (v.chunkIovDrop bytes).chunks = v.chunks := by
  have hloop : ∀ (es : List HeldEntry) (bytes : Nat),
      (dropLoop es bytes).filterMap (fun e => e.ref.chunk?) = es.filterMap fun e => e.ref.chunk? := by
    intro es bytes
    fun_induction dropLoop es bytes with
    | case1 => rfl
    | case2 => rfl
    | case3 e rest bytes h0 hlt ih => rw [List.filterMap_cons, List.filterMap_cons, ih]
    | case4 e rest bytes h0 hge => rw [List.filterMap_cons, List.filterMap_cons]
  unfold chunkIovDrop
  split
  · exact hloop _ _
  · rfl

@[simp]
theorem chunks_chunkIovReset (v : HeldVec) : v.chunkIovReset.chunks = [] := rfl

end HeldVec

/-! ## the thread -/

/-- The chunks of a thread, the chunk of each connection, the output vector of each
request, and the variables of `fcgi_recv_response` for the connection it was last called
for. -/
structure ChunkHolders where
  mem : Pool Chunk := []
  fds : List (Option Nat)
  vecs : List HeldVec
  conn : Nat := 0
  read : ChunkPtr := {}
  pkgSize : Nat := 0
  inherit : Nat := 0
  pc : RecvPc := .idle
deriving DecidableEq, Repr

/-- What the handler finds: the request of the number, whether it has failed or was sent,
whether the vector can grow, whether the other checks hold, and whether its client is gone. -/
structure PkgCase where
  req : Option Nat := some 0
  failed : Bool := false
  sent : Bool := true
  granted : Bool := true
  ok : Bool := true
  gone : Bool := false
deriving DecidableEq, Repr

/-- A call for a connection, what `socket_read` returned and whether the connection can be
set to closing, or a package; and between two calls a vector that is given up, sent in
part, or gets memory of another kind. -/
inductive HolderLabel
  | call (i : Nat)
  | socket (r : ReadResult) (closes : Bool)
  | package (a : PkgCase)
  | reset (r : Nat)
  | drop (r bytes : Nat)
  | addPtr (r len : Nat) (doFree : Bool)
deriving DecidableEq, Repr

namespace ChunkHolders

/-- Who holds a chunk, one entry for each connection and each entry of a vector. -/
def holders (s : ChunkHolders) : List Nat := s.fds.filterMap id ++ s.vecs.flatMap HeldVec.chunks

/-- The thread as its current connection sees it: all else that holds chunks. -/
def toRecv (s : ChunkHolders) : RecvMem :=
  { mem := s.mem
    held := s.vecs.flatMap HeldVec.chunks ++ (s.fds.eraseIdx s.conn).filterMap id
    chunk := s.fds.getD s.conn none
    read := s.read
    pkgSize := s.pkgSize
    inherit := s.inherit
    pc := s.pc }

/-- What the connection has done. -/
def ofRecv (s : ChunkHolders) (m : RecvMem) : ChunkHolders :=
  { s with
    mem := m.mem, fds := s.fds.set s.conn m.chunk, read := m.read, pkgSize := m.pkgSize, inherit := m.inherit, pc := m.pc }

/-- `request_reset`: the vector gives back its references. -/
def requestReset (s : ChunkHolders) (r : Nat) : ChunkHolders :=
  { s with
    mem := s.mem.releaseAll (s.vecs.getD r {}).chunks
    vecs := s.vecs.set r (s.vecs.getD r {}).chunkIovReset }

/-- The body of the package is added to a vector, with a reference to its chunk. -/
def addBody (s : ChunkHolders) (r p : Nat) (v : HeldVec) : ChunkHolders :=
  { s with mem := s.mem.modify p Counted.retain, vecs := s.vecs.set r v }

/-- `request_add_pkg`, for a package in the chunk `p`. -/
def requestAddPkg (s : ChunkHolders) (r p : Nat) (h : FcgiHeader) (a : PkgCase) : Bool × ChunkHolders :=
  let v := s.vecs.getD r {}
  let base := s.read.pos + fcgiHeaderLen
  if a.sent then
    match v.chunkIovAdd p base h.bodyLen.toNat with
    | some v => (true, s.addBody r p v)
    | none =>
        match v.chunkIovResize (v.size + 2) a.granted with
        | none => (false, s)
        | some v =>
            let s := { s with vecs := s.vecs.set r v }
            match v.chunkIovAdd p base h.bodyLen.toNat with
            | some v => (true, s.addBody r p v)
            | none => (false, s)
  else (false, s)

/-- `fcgi_handle_pkg`. -/
def fcgiHandlePkg (s : ChunkHolders) (h : FcgiHeader) (a : PkgCase) : Bool × ChunkHolders :=
  match a.req with
  | none => (false, s)
  | some r =>
      if h.type = fcgiStdout then
        if a.failed then (true, s)
        else if h.bodyLen.toNat = 0 then (a.ok, s)
        else
          match s.read.parent with
          | some p => s.requestAddPkg r p h a
          | none => (false, s)
      else if h.type = fcgiEndRequest then
        if a.ok then (true, if a.gone then s.requestReset r else s) else (false, s)
      else (h.type != 0, s)

/-- A step; it has no result where it is not possible. -/
def step (s : ChunkHolders) : HolderLabel → Option ChunkHolders
  | .call i =>
      if i < s.fds.length then ({ s with conn := i }.toRecv.step .call).map { s with conn := i }.ofRecv else none
  | .socket r closes => (s.toRecv.step (.socket r closes)).map s.ofRecv
  | .package a =>
      match s.pc with
      | .package done h =>
          if ∀ r ∈ a.req, r < s.vecs.length then
            match s.fcgiHandlePkg h a with
            | (true, t) => some (t.ofRecv ((t.toRecv.advance h.pkgSize).next done))
            | (false, t) => some { t with pc := .idle }
          else none
      | _ => none
  | .reset r => if s.pc = .idle ∧ r < s.vecs.length then some (s.requestReset r) else none
  | .drop r bytes =>
      if s.pc = .idle ∧ r < s.vecs.length then
        some { s with vecs := s.vecs.set r ((s.vecs.getD r {}).chunkIovDrop bytes) }
      else none
  | .addPtr r len doFree =>
      if s.pc = .idle ∧ r < s.vecs.length then
        ((s.vecs.getD r {}).chunkIovAddPtr len doFree).map fun v => { s with vecs := s.vecs.set r v }
      else none

def Step (s : ChunkHolders) (l : HolderLabel) (s' : ChunkHolders) : Prop := s.step l = some s'

/-- Where a step may have called `chunk_new`, `fcgi_fd_set_chunk` or `chunk_iov_resize`, and
goes on. -/
def midway (s : ChunkHolders) : HolderLabel → List ChunkHolders
  | .socket _ _ =>
      if 0 < s.inherit ∨ s.toRecv.room < fcgiHeaderLen then
        [{ s with mem := s.mem ++ [{ val := chunkNew (if chunkSize < s.pkgSize then s.pkgSize else chunkSize) }] },
          s.ofRecv s.toRecv.newChunk.2]
      else []
  | .package a =>
      match a.req with
      | some r =>
          ((s.vecs.getD r {}).chunkIovResize ((s.vecs.getD r {}).size + 2) a.granted).toList.map fun v =>
            { s with vecs := s.vecs.set r v }
      | none => []
  | _ => []

/-! ## what is promised -/

/-- Every chunk counts its holders, and what is held is not freed. -/
structure RefsRight (s : ChunkHolders) : Prop where
  refs : ∀ p c, s.mem[p]? = some c → c.refs = (s.holders.count p : Int)
  live : ∀ p ∈ s.holders, ∃ c, s.mem[p]? = some c ∧ c.live = true

/-- A chunk without a holder is freed, as well. -/
structure HoldersRight (s : ChunkHolders) : Prop extends RefsRight s where
  freed : ∀ p c, s.mem[p]? = some c → c.live = true → p ∈ s.holders

/-- The request that a package recycles. -/
def recycled (h : FcgiHeader) (a : PkgCase) : Option Nat :=
  if h.type = fcgiEndRequest ∧ a.ok = true ∧ a.gone = true then a.req else none

/-- A header is read only in a chunk that is held: when a new chunk was taken and nothing is
read, the old one with a header's worth of unread bytes is held by a vector; and when a
package in such a chunk recycles its request, the chunk is still held if a header's worth
of bytes follows. -/
def ReadsKept (s : ChunkHolders) : HolderLabel → Prop
  | .socket r closes => s.toRecv.Meets (.socket r closes)
  | .package a =>
      match s.pc with
      | .package _ h =>
          ∀ r ∈ recycled h a, h.pkgSize + fcgiHeaderLen ≤ s.read.len → s.read.parent ≠ s.toRecv.chunk →
            ∀ p ∈ s.read.parent, p ∈ (s.requestReset r).toRecv.held
      | _ => True
  | _ => True

instance (s : ChunkHolders) (l : HolderLabel) : Decidable (ReadsKept s l) :=
  match l with
  | .call _ | .reset _ | .drop .. | .addPtr .. => inferInstanceAs (Decidable True)
  | .socket r closes => inferInstanceAs (Decidable (s.toRecv.Meets (.socket r closes)))
  | .package a =>
      match hpc : s.pc with
      | .package _ h =>
          decidable_of_iff (∀ r ∈ recycled h a, h.pkgSize + fcgiHeaderLen ≤ s.read.len → s.read.parent ≠ s.toRecv.chunk →
            ∀ p ∈ s.read.parent, p ∈ (s.requestReset r).toRecv.held) (by rw [ReadsKept, hpc])
      | .idle => isTrue (by rw [ReadsKept, hpc]; trivial)
      | .reading => isTrue (by rw [ReadsKept, hpc]; trivial)

/-- The start: no chunk, and no connection and no vector with one. -/
structure Start (s : ChunkHolders) : Prop where
  mem : s.mem = []
  fds : ∀ c ∈ s.fds, c = none
  vecs : ∀ v ∈ s.vecs, v.entries = []
  idle : s.pc = .idle

end ChunkHolders

/-! ## one connection -/

namespace RecvMem

/-- The counts are exact: the chunk of the connection, and all else that is held. -/
def Right (s : RecvMem) : Prop := s.mem.Exact (s.chunk.toList ++ s.held)

variable {s s' : RecvMem} {done : Bool}

theorem Right.endIteration (h : Right s) : Right (s.endIteration done) ∧ (s.endIteration done).held = s.held := by
  unfold RecvMem.endIteration
  split
  · next p hp =>
      refine ⟨?_, rfl⟩
      unfold Right
      dsimp only
      split
      · exact h.modify p _
      · exact h
  · exact ⟨h, rfl⟩

theorem Right.next (h : Right s) : Right (s.next done) ∧ (s.next done).held = s.held := by
  unfold RecvMem.next
  split
  · split
    · exact @Right.endIteration { s.passOver with pkgSize := fcgiHeaderLen } done h
    · dsimp only
      generalize fcgiReadHeader (s.parent.val.data.drop s.read.pos) = header
      split
      · exact @Right.endIteration { s.readPkg header 0 7 with pkgSize := header.pkgSize }.passOver done h
      · exact ⟨h, rfl⟩
  · exact h.endIteration

theorem Right.newChunk (h : Right s) (hnew : s.newChunk = (true, s')) : Right s' ∧ s'.held = s.held := by
  unfold RecvMem.newChunk at hnew
  dsimp only at hnew
  split at hnew
  · next c hc =>
      obtain rfl := congrArg Prod.snd hnew
      refine ⟨?_, rfl⟩
      have hcount : ∀ q, (s.chunk.toList ++ s.held).count q = s.held.count q + s.chunk.toList.count q := by
        intro q
        rw [List.count_append, Nat.add_comm]
      have hadded := (Pool.Exact.releaseAll h hcount).add c
      rwa [Pool.length_releaseAll] at hadded
  · cases hnew

theorem Right.store {bytes : Bytes} (h : Right s) : Right (s.store bytes) ∧ (s.store bytes).held = s.held := by
  unfold RecvMem.store
  split
  · next p hp => exact ⟨h.modify p _, rfl⟩
  · exact ⟨h, rfl⟩

theorem Right.receive {r : ReadResult} {closes : Bool} (h : Right s) (hstep : s.receive r closes = some s') :
    Right s' ∧ s'.held = s.held := by
  cases r with
  | data bytes =>
      simp only [RecvMem.receive] at hstep
      split at hstep
      · obtain rfl := Option.some.inj hstep
        obtain ⟨hstored, hheld⟩ := @Right.store s bytes h
        obtain ⟨hnext, hheld'⟩ := @Right.next { s.store bytes with read := (s.store bytes).readPtr } false hstored
        exact ⟨hnext, hheld'.trans hheld⟩
      · contradiction
  | again =>
      obtain rfl := Option.some.inj hstep
      exact h.next
  | eof =>
      obtain rfl := Option.some.inj hstep
      split
      · exact h.next
      · exact ⟨h, rfl⟩
  | error =>
      obtain rfl := Option.some.inj hstep
      exact ⟨h, rfl⟩

/-- **A read** keeps the counts exact. -/
theorem Right.socket {r : ReadResult} {closes : Bool} (h : Right s) (hinv : Inv s)
    (hstep : s.step (.socket r closes) = some s') : Right s' ∧ s'.held = s.held := by
  simp only [RecvMem.step] at hstep
  split at hstep
  case isFalse => contradiction
  case isTrue hpc =>
    split at hstep
    · obtain ⟨t, hnew, -⟩ := newChunk_spec hinv hpc
      obtain ⟨hright, hheld⟩ := h.newChunk hnew
      rw [hnew] at hstep
      obtain ⟨hright', hheld'⟩ := hright.receive hstep
      exact ⟨hright', hheld'.trans hheld⟩
    · exact h.receive hstep

/-- A `socket_read` is made before one. -/
theorem reading_of_socket {r : ReadResult} {closes : Bool} (hstep : s.step (.socket r closes) = some s') :
    s.pc = .reading := by
  by_contra hne
  simp only [RecvMem.step] at hstep
  rw [if_neg hne] at hstep
  contradiction

/-- The reads that were logged do not matter. -/
theorem Inv.forget (h : Inv s) : Inv { s with log := [] } := by
  obtain ⟨hcore, hrest⟩ := h
  refine ⟨⟨hcore.bounds, by simp, hcore.counts⟩, ?_⟩
  cases hpc : s.pc with
  | idle => trivial
  | reading =>
      rw [hpc] at hrest
      obtain ⟨hptr, hhere, hinherit⟩ := hrest
      exact ⟨⟨hptr.inside, hptr.null⟩, hhere, hinherit⟩
  | package done header =>
      rw [hpc] at hrest
      obtain ⟨hptr, hinherit, hsize, hkept, hhere⟩ := hrest
      exact ⟨⟨hptr.inside, hptr.null⟩, hinherit, hsize, hkept, hhere⟩

end RecvMem

/-! ## the holders -/

namespace ChunkHolders

variable {s s' t : ChunkHolders} {m : RecvMem}

/-- One connection is set apart. -/
theorem filterMap_perm (fds : List (Option Nat)) (i : Nat) :
    ((fds.getD i none).toList ++ (fds.eraseIdx i).filterMap id).Perm (fds.filterMap id) := by
  obtain hlt | hge := lt_or_ge i fds.length
  · have hperm := (List.getElem_cons_eraseIdx_perm hlt).filterMap id
    rw [List.getD_eq_getElem _ _ hlt]
    cases hc : fds[i] with
    | none =>
        rw [hc] at hperm
        exact hperm
    | some p =>
        rw [hc] at hperm
        exact hperm
  · rw [List.getD_eq_default _ _ hge, List.eraseIdx_of_length_le hge]
    exact List.Perm.refl _

theorem toRecv_perm (s : ChunkHolders) : (s.toRecv.chunk.toList ++ s.toRecv.held).Perm s.holders := by
  have hfds := filterMap_perm s.fds s.conn
  have hswap : (s.toRecv.chunk.toList ++ s.toRecv.held).Perm
      (s.vecs.flatMap HeldVec.chunks ++ ((s.fds.getD s.conn none).toList ++ (s.fds.eraseIdx s.conn).filterMap id)) := by
    simp only [toRecv]
    rw [← List.append_assoc, ← List.append_assoc]
    exact List.perm_append_comm.append_right _
  exact (hswap.trans (hfds.append_left _)).trans List.perm_append_comm

theorem toRecv_right_iff : s.toRecv.Right ↔ s.mem.Exact s.holders :=
  ⟨fun h => h.of_count s.toRecv_perm.count_eq, fun h => h.of_count s.toRecv_perm.symm.count_eq⟩

/-- The connection has what it has done. -/
theorem toRecv_ofRecv (hconn : s.conn < s.fds.length) (hheld : m.held = s.toRecv.held) :
    (s.ofRecv m).toRecv = { m with log := [] } := by
  have hchunk : (s.fds.set s.conn m.chunk).getD s.conn none = m.chunk := by
    rw [List.getD_eq_getElem _ _ (by rwa [List.length_set]), List.getElem_set_self]
  simp only [toRecv] at hheld
  simp only [toRecv, ofRecv, hchunk, List.eraseIdx_set_eq, ← hheld]

/-- One vector is set apart. -/
theorem count_set {r : Nat} {vecs : List HeldVec} (hr : r < vecs.length) (v : HeldVec) (q : Nat) :
    ((vecs.set r v).flatMap HeldVec.chunks).count q + (vecs.getD r {}).chunks.count q =
      (vecs.flatMap HeldVec.chunks).count q + v.chunks.count q := by
  have hold := ((List.getElem_cons_eraseIdx_perm hr).flatMap_right HeldVec.chunks).count_eq q
  have hnew := ((List.set_perm_cons_eraseIdx hr v).flatMap_right HeldVec.chunks).count_eq q
  rw [List.flatMap_cons, List.count_append] at hold hnew
  rw [List.getD_eq_getElem _ _ hr]
  omega

/-- The holders when a vector changes. -/
theorem count_holders_set {r : Nat} (hr : r < s.vecs.length) (v : HeldVec) (q : Nat) :
    ({ s with vecs := s.vecs.set r v }.holders).count q + (s.vecs.getD r {}).chunks.count q =
      s.holders.count q + v.chunks.count q := by
  have := count_set hr v q
  simp only [holders, List.count_append]
  omega

/-! ## what a step keeps -/

/-- What holds between two steps. -/
structure Ok (s : ChunkHolders) : Prop where
  right : s.mem.Exact s.holders
  inv : s.toRecv.Inv
  conn : s.pc ≠ .idle → s.conn < s.fds.length

theorem core_of_right (hright : s.mem.Exact s.holders) (hbounds : ∀ c ∈ s.mem, c.val.InBounds) : s.toRecv.Core := by
  refine ⟨hbounds, fun r hr => ?_, (toRecv_right_iff.mpr hright).counts⟩
  cases hr

theorem Ok.of_idle (hright : s.mem.Exact s.holders) (hbounds : ∀ c ∈ s.mem, c.val.InBounds) (hpc : s.pc = .idle) :
    Ok s := by
  refine ⟨hright, ⟨core_of_right hright hbounds, ?_⟩, fun hne => absurd hpc hne⟩
  have hidle : s.toRecv.pc = .idle := hpc
  rw [hidle]
  trivial

theorem Ok.ofRecv (hconn : s.conn < s.fds.length) (hheld : m.held = s.toRecv.held) (hright : m.Right) (hinv : m.Inv) :
    Ok (s.ofRecv m) := by
  have heq := toRecv_ofRecv hconn hheld
  refine ⟨toRecv_right_iff.mp ?_, ?_, fun _ => ?_⟩
  · rw [heq]
    exact hright
  · rw [heq]
    exact hinv.forget
  · show s.conn < (s.fds.set s.conn m.chunk).length
    rwa [List.length_set]

theorem Ok.call {i : Nat} (h : Ok s) (hstep : s.step (.call i) = some s') : Ok s' := by
  simp only [step] at hstep
  split at hstep
  case isFalse => contradiction
  case isTrue hi =>
    obtain ⟨m, hm, rfl⟩ := Option.map_eq_some_iff.mp hstep
    have hm' := hm
    simp only [RecvMem.step] at hm'
    split at hm'
    case isFalse => contradiction
    case isTrue hpc =>
      have hidle : Ok { s with conn := i } := Ok.of_idle h.right h.inv.1.bounds hpc
      have hright := toRecv_right_iff.mpr hidle.right
      obtain rfl := Option.some.inj hm'
      exact Ok.ofRecv hi rfl hright (hidle.inv.call hm)

theorem Ok.socket {r : ReadResult} {closes : Bool} (h : Ok s) (hkept : ReadsKept s (.socket r closes))
    (hstep : s.step (.socket r closes) = some s') : Ok s' := by
  simp only [step] at hstep
  obtain ⟨m, hm, rfl⟩ := Option.map_eq_some_iff.mp hstep
  have hpc : s.toRecv.pc = .reading := RecvMem.reading_of_socket hm
  have hbusy : s.pc ≠ .idle := ne_of_eq_of_ne hpc (by decide)
  obtain ⟨hright, hheld⟩ := (toRecv_right_iff.mpr h.right).socket h.inv hm
  exact Ok.ofRecv (h.conn hbusy) hheld hright (h.inv.socket hkept hm)

/-! ## a package -/

/-- `request_add_pkg` adds the body at once, after the vector was made larger, or not. -/
theorem requestAddPkg_cases (s : ChunkHolders) (r p : Nat) (h : FcgiHeader) (a : PkgCase) :
    (s.requestAddPkg r p h a).2 = s ∨
      (∃ v, v.chunks = (s.vecs.getD r {}).chunks ∧ (s.requestAddPkg r p h a).2 = { s with vecs := s.vecs.set r v }) ∨
      ∃ v, v.chunks = (s.vecs.getD r {}).chunks ++ [p] ∧ (s.requestAddPkg r p h a).2 = s.addBody r p v := by
  by_cases hsent : a.sent = true
  case neg => exact .inl (by simp only [requestAddPkg, if_neg hsent])
  case pos =>
    cases hadd : (s.vecs.getD r {}).chunkIovAdd p (s.read.pos + fcgiHeaderLen) h.bodyLen.toNat with
    | some v =>
        refine .inr (.inr ⟨v, HeldVec.chunks_chunkIovAdd hadd, ?_⟩)
        simp only [requestAddPkg, if_pos hsent, hadd]
    | none =>
        cases hresize : (s.vecs.getD r {}).chunkIovResize ((s.vecs.getD r {}).size + 2) a.granted with
        | none => exact .inl (by simp only [requestAddPkg, if_pos hsent, hadd, hresize])
        | some v =>
            have hchunks := HeldVec.chunks_chunkIovResize hresize
            cases hagain : v.chunkIovAdd p (s.read.pos + fcgiHeaderLen) h.bodyLen.toNat with
            | none =>
                refine .inr (.inl ⟨v, hchunks, ?_⟩)
                simp only [requestAddPkg, if_pos hsent, hadd, hresize, hagain]
            | some v' =>
                refine .inr (.inr ⟨v', by rw [HeldVec.chunks_chunkIovAdd hagain, hchunks], ?_⟩)
                simp only [requestAddPkg, if_pos hsent, hadd, hresize, hagain, addBody, List.set_set]

/-- The handler gives an output vector one reference more or none, or takes all it has. -/
theorem fcgiHandlePkg_cases (s : ChunkHolders) (h : FcgiHeader) (a : PkgCase) :
    (s.fcgiHandlePkg h a).2 = s ∨ ∃ r ∈ a.req,
      (∃ v, v.chunks = (s.vecs.getD r {}).chunks ∧ (s.fcgiHandlePkg h a).2 = { s with vecs := s.vecs.set r v }) ∨
      (∃ p ∈ s.read.parent, ∃ v, v.chunks = (s.vecs.getD r {}).chunks ++ [p] ∧
        (s.fcgiHandlePkg h a).2 = s.addBody r p v) ∨
      (recycled h a = some r ∧ (s.fcgiHandlePkg h a).2 = s.requestReset r) := by
  cases hreq : a.req with
  | none => exact .inl (by simp only [fcgiHandlePkg, hreq])
  | some r =>
      by_cases hout : h.type = fcgiStdout
      · by_cases hfailed : a.failed = true
        · exact .inl (by simp only [fcgiHandlePkg, hreq, if_pos hout, if_pos hfailed])
        by_cases hbody : h.bodyLen.toNat = 0
        · exact .inl (by simp only [fcgiHandlePkg, hreq, if_pos hout, if_neg hfailed, if_pos hbody])
        cases hp : s.read.parent with
        | none => exact .inl (by simp only [fcgiHandlePkg, hreq, if_pos hout, if_neg hfailed, if_neg hbody, hp])
        | some p =>
            have heq : s.fcgiHandlePkg h a = s.requestAddPkg r p h a := by
              simp only [fcgiHandlePkg, hreq, if_pos hout, if_neg hfailed, if_neg hbody, hp]
            rw [heq]
            obtain hsame | ⟨v, hv, hset⟩ | ⟨v, hv, hadded⟩ := requestAddPkg_cases s r p h a
            · exact .inl hsame
            · exact .inr ⟨r, rfl, .inl ⟨v, hv, hset⟩⟩
            · exact .inr ⟨r, rfl, .inr (.inl ⟨p, rfl, v, hv, hadded⟩)⟩
      · by_cases hend : h.type = fcgiEndRequest
        · by_cases hok : a.ok = true
          · by_cases hgone : a.gone = true
            · refine .inr ⟨r, rfl, .inr (.inr ⟨?_, ?_⟩)⟩
              · rw [recycled, if_pos ⟨hend, hok, hgone⟩, hreq]
              · simp only [fcgiHandlePkg, hreq, if_neg hout, if_pos hend, if_pos hok, if_pos hgone]
            · exact .inl (by simp only [fcgiHandlePkg, hreq, if_neg hout, if_pos hend, if_pos hok, if_neg hgone])
          · exact .inl (by simp only [fcgiHandlePkg, hreq, if_neg hout, if_pos hend, if_neg hok])
        · exact .inl (by simp only [fcgiHandlePkg, hreq, if_neg hout, if_neg hend])

/-- What holds of the chunks after the handler. -/
structure Handled (s t : ChunkHolders) : Prop where
  right : t.mem.Exact t.holders
  vals : ∀ p : Nat, (t.mem[p]?).map Counted.val = (s.mem[p]?).map Counted.val
  rest : t.fds = s.fds ∧ t.conn = s.conn ∧ t.read = s.read ∧ t.inherit = s.inherit ∧ t.pc = s.pc

theorem Handled.bounds (h : Handled s t) (hbounds : ∀ c ∈ s.mem, c.val.InBounds) : ∀ c ∈ t.mem, c.val.InBounds := by
  intro c hc
  obtain ⟨p, hp⟩ := List.mem_iff_getElem?.mp hc
  have hval := h.vals p
  rw [hp] at hval
  obtain ⟨d, hd, hsame⟩ := Option.map_eq_some_iff.mp hval.symm
  rw [← hsame]
  exact hbounds d (List.mem_of_getElem? hd)

theorem Handled.ptrOk (h : Handled s t) (hptr : s.toRecv.PtrOk) : t.toRecv.PtrOk := by
  refine hptr.of_val h.rest.2.2.1 fun p c hc => ?_
  have hval := h.vals p
  have hc : s.mem[p]? = some c := hc
  rw [hc] at hval
  exact Option.map_eq_some_iff.mp hval

theorem Handled.same (h : s.mem.Exact s.holders) : Handled s s := ⟨h, fun _ => rfl, rfl, rfl, rfl, rfl, rfl⟩

/-- A vector that holds what it held. -/
theorem Handled.set {r : Nat} {v : HeldVec} (h : s.mem.Exact s.holders) (hr : r < s.vecs.length)
    (hv : v.chunks = (s.vecs.getD r {}).chunks) : Handled s { s with vecs := s.vecs.set r v } := by
  refine ⟨h.of_count fun q => ?_, fun _ => rfl, rfl, rfl, rfl, rfl, rfl⟩
  have := count_holders_set hr v q
  rw [hv] at this
  omega

/-- A reference more to a chunk that is held. -/
theorem Handled.addBody {r p : Nat} {v : HeldVec} (h : s.mem.Exact s.holders) (hr : r < s.vecs.length)
    (hv : v.chunks = (s.vecs.getD r {}).chunks ++ [p]) (hp : p ∈ s.holders) : Handled s (s.addBody r p v) := by
  refine ⟨(h.retain hp).of_count fun q => ?_, fun q => ?_, rfl, rfl, rfl, rfl, rfl⟩
  · have := count_holders_set hr v q
    rw [hv, List.count_append, List.count_cons, List.count_nil] at this
    rw [List.count_cons]
    show _ = ({ s with vecs := s.vecs.set r v }.holders).count q
    omega
  · show ((s.mem.modify p Counted.retain)[q]?).map _ = _
    rw [List.getElem?_modify]
    cases s.mem[q]? with
    | none => rfl
    | some c =>
        dsimp only [Option.map_some]
        split
        · rfl
        · rfl

/-- All references of a vector given back. -/
theorem Handled.requestReset {r : Nat} (h : s.mem.Exact s.holders) (hr : r < s.vecs.length) :
    Handled s (s.requestReset r) := by
  refine ⟨h.releaseAll fun q => ?_, fun q => ?_, rfl, rfl, rfl, rfl, rfl⟩
  · have := count_holders_set hr (s.vecs.getD r {}).chunkIovReset q
    rw [HeldVec.chunks_chunkIovReset, List.count_nil, Nat.add_zero] at this
    exact this.symm
  · show ((s.mem.releaseAll (s.vecs.getD r {}).chunks)[q]?).map _ = _
    rw [Pool.getElem?_releaseAll, Option.map_map]
    congr 1
    funext c
    rw [Function.comp_apply, Counted.release_iterate]

/-- What a vector comes to hold, and all else, is held. -/
theorem mem_held_set {r p : Nat} {v : HeldVec} {extra : List Nat} (hr : r < s.vecs.length)
    (hv : v.chunks = (s.vecs.getD r {}).chunks ++ extra) (hp : p ∈ s.toRecv.held) :
    p ∈ { s with vecs := s.vecs.set r v }.toRecv.held := by
  obtain hp | hp := List.mem_append.mp hp
  · refine List.mem_append_left _ ?_
    have hcount := count_set hr v p
    have hpos := List.count_pos_iff.mpr hp
    rw [hv, List.count_append] at hcount
    show p ∈ (s.vecs.set r v).flatMap HeldVec.chunks
    exact List.count_pos_iff.mp (by omega)
  · exact List.mem_append_right _ hp

/-- **The handler** keeps the counts exact, and takes no reference but those of a request
that it recycles. -/
theorem fcgiHandlePkg_spec {h : FcgiHeader} {a : PkgCase} (hright : s.mem.Exact s.holders) (hkept : s.toRecv.Kept)
    (hreq : ∀ r ∈ a.req, r < s.vecs.length) :
    Handled s (s.fcgiHandlePkg h a).2 ∧
      ((∀ p ∈ s.toRecv.held, p ∈ (s.fcgiHandlePkg h a).2.toRecv.held) ∨
        ∃ r, recycled h a = some r ∧ (s.fcgiHandlePkg h a).2 = s.requestReset r) := by
  obtain heq | ⟨r, hr, ⟨v, hv, heq⟩ | ⟨p, hp, v, hv, heq⟩ | ⟨hrecycled, heq⟩⟩ := fcgiHandlePkg_cases s h a
  · rw [heq]
    exact ⟨.same hright, .inl fun p hp => hp⟩
  · rw [heq]
    exact ⟨.set hright (hreq r hr) hv, .inl fun p hp => mem_held_set (hreq r hr) (hv.trans (List.append_nil _).symm) hp⟩
  · rw [heq]
    have hmem : p ∈ s.holders := by
      rw [← s.toRecv_perm.mem_iff, List.mem_append, Option.mem_toList]
      exact hkept p hp
    exact ⟨.addBody hright (hreq r hr) hv hmem, .inl fun q hq => mem_held_set (hreq r hr) hv hq⟩
  · rw [heq]
    exact ⟨.requestReset hright (hreq r hr), .inr ⟨r, hrecycled, rfl⟩⟩

/-- The chunk of the read pointer is held still, if a header is to be read in it. -/
theorem Handled.kept {done : Bool} {h : FcgiHeader} {a : PkgCase} (hhandled : Handled s t)
    (hheld : (∀ p ∈ s.toRecv.held, p ∈ t.toRecv.held) ∨ ∃ r, recycled h a = some r ∧ t = s.requestReset r)
    (hpc : s.pc = .package done h) (hreads : ReadsKept s (.package a)) (hkept : s.toRecv.Kept)
    (hlen : h.pkgSize + fcgiHeaderLen ≤ s.read.len) : t.toRecv.Kept := by
  obtain ⟨hfds, hconn, hread, -, -⟩ := hhandled.rest
  have hchunk : t.toRecv.chunk = s.toRecv.chunk := by simp only [toRecv, hfds, hconn]
  intro q hq
  have hq : s.read.parent = some q := by
    rw [← hread]
    exact hq
  rw [hchunk]
  obtain hold | ⟨r, hrecycled, rfl⟩ := hheld
  · exact (hkept q hq).imp_right (hold q)
  · by_cases hsame : s.read.parent = s.toRecv.chunk
    · exact .inl (hsame.symm.trans hq)
    · simp only [ReadsKept, hpc] at hreads
      exact .inr (hreads r hrecycled hlen hsame q hq)

theorem Ok.package {a : PkgCase} (h : Ok s) (hreads : ReadsKept s (.package a))
    (hstep : s.step (.package a) = some s') : Ok s' := by
  simp only [step] at hstep
  split at hstep
  case h_2 => contradiction
  case h_1 done header hpc =>
    split at hstep
    case isFalse => contradiction
    case isTrue hreq =>
      have hrest := h.inv.2
      have hpc' : s.toRecv.pc = .package done header := hpc
      rw [hpc'] at hrest
      obtain ⟨hptr, hinherit, hsize, hkept, hhere⟩ := hrest
      obtain ⟨hhandled, hheld⟩ := @fcgiHandlePkg_spec s header a h.right hkept hreq
      generalize s.fcgiHandlePkg header a = res at hstep hhandled hheld
      obtain ⟨answer, t⟩ := res
      obtain ⟨hfds, hconn, hread, hinherit', -⟩ := hhandled.rest
      dsimp only at hhandled hheld hfds hconn hread hinherit'
      have hcore := core_of_right hhandled.right (hhandled.bounds h.inv.1.bounds)
      cases answer with
      | false =>
          obtain rfl := Option.some.inj hstep
          exact Ok.of_idle hhandled.right hcore.bounds rfl
      | true =>
          obtain rfl := Option.some.inj hstep
          have hsize' : header.pkgSize ≤ t.read.len := by rwa [hread]
          have hinv : ((t.toRecv.advance header.pkgSize).next done).Inv := by
            refine RecvMem.Inv.next ⟨hcore.bounds, hcore.log, hcore.counts⟩ ((hhandled.ptrOk hptr).advance hsize')
              (hinherit'.trans hinherit) (fun hdone => ?_) fun hlen => ?_
            · show t.read.parent = t.fds.getD t.conn none
              rw [hread, hfds, hconn]
              exact hhere hdone
            · refine hhandled.kept hheld hpc hreads hkept ?_
              have hlen : fcgiHeaderLen ≤ t.read.len - header.pkgSize := hlen
              rw [hread] at hlen
              unfold fcgiHeaderLen at hlen ⊢
              have hsize : header.pkgSize ≤ s.read.len := hsize
              omega
          obtain ⟨hright, hsame⟩ := @RecvMem.Right.next (t.toRecv.advance header.pkgSize) done (toRecv_right_iff.mpr hhandled.right)
          refine Ok.ofRecv ?_ hsame hright hinv
          rw [hfds, hconn]
          exact h.conn (by rw [hpc]; exact fun hcontra => by cases hcontra)

/-! ## between two calls -/

theorem Ok.reset {r : Nat} (h : Ok s) (hstep : s.step (.reset r) = some s') : Ok s' := by
  simp only [step] at hstep
  split at hstep
  case isFalse => contradiction
  case isTrue hidle =>
    obtain rfl := Option.some.inj hstep
    have hhandled := Handled.requestReset h.right hidle.2
    exact Ok.of_idle hhandled.right (hhandled.bounds h.inv.1.bounds) hidle.1

theorem Ok.drop {r bytes : Nat} (h : Ok s) (hstep : s.step (.drop r bytes) = some s') : Ok s' := by
  simp only [step] at hstep
  split at hstep
  case isFalse => contradiction
  case isTrue hidle =>
    obtain rfl := Option.some.inj hstep
    have hhandled := Handled.set h.right hidle.2 (HeldVec.chunks_chunkIovDrop _ bytes)
    exact Ok.of_idle hhandled.right h.inv.1.bounds hidle.1

theorem Ok.addPtr {r len : Nat} {doFree : Bool} (h : Ok s) (hstep : s.step (.addPtr r len doFree) = some s') :
    Ok s' := by
  simp only [step] at hstep
  split at hstep
  case isFalse => contradiction
  case isTrue hidle =>
    obtain ⟨v, hv, rfl⟩ := Option.map_eq_some_iff.mp hstep
    have hhandled := Handled.set h.right hidle.2 (HeldVec.chunks_chunkIovAddPtr hv)
    exact Ok.of_idle hhandled.right h.inv.1.bounds hidle.1

/-- **What a step keeps**, when it reads in chunks that are held. -/
theorem Ok.step {l : HolderLabel} (h : Ok s) (hreads : ReadsKept s l) (hstep : s.step l = some s') : Ok s' := by
  cases l with
  | call i => exact h.call hstep
  | socket r closes => exact h.socket hreads hstep
  | package a => exact h.package hreads hstep
  | reset r => exact h.reset hstep
  | drop r bytes => exact h.drop hstep
  | addPtr r len doFree => exact h.addPtr hstep

/-! ## runs -/

theorem Start.ok (h : s.Start) : Ok s := by
  have hfds : s.fds.filterMap id = [] := by
    refine List.filterMap_eq_nil_iff.mpr fun c hc => ?_
    rw [h.fds c hc]
    rfl
  have hvecs : s.vecs.flatMap HeldVec.chunks = [] := by
    refine List.flatMap_eq_nil_iff.mpr fun v hv => ?_
    rw [HeldVec.chunks, h.vecs v hv]
    rfl
  refine Ok.of_idle ?_ ?_ h.idle
  · rw [holders, hfds, hvecs, h.mem]
    exact Pool.Exact.nil
  · rw [h.mem]
    simp

/-- Exact counts are right. -/
theorem holdersRight_of_exact (h : s.mem.Exact s.holders) : HoldersRight s := by
  refine ⟨⟨h.refs, fun p hp => ?_⟩, fun p c hc => (h.live p c hc).mp⟩
  obtain ⟨c, hc, hlive, -⟩ := h.counts p hp
  exact ⟨c, hc, hlive⟩

/-- A chunk that nobody holds yet. -/
theorem refsRight_new {c : Chunk} (h : s.mem.Exact s.holders) :
    RefsRight { s with mem := s.mem ++ [{ val := c }] } := by
  refine ⟨fun p d hd => ?_, fun p hp => ?_⟩
  · obtain hlt | hge := lt_or_ge p s.mem.length
    · rw [List.getElem?_append_left hlt] at hd
      exact h.refs p d hd
    · have hnot : p ∉ s.holders := fun hp => Nat.not_lt.mpr hge (h.inside p hp)
      rw [List.getElem?_append_right hge] at hd
      obtain rfl := List.mem_singleton.mp (List.mem_of_getElem? hd)
      show (0 : Int) = (s.holders.count p : Int)
      rw [List.count_eq_zero.mpr hnot]
      rfl
  · obtain ⟨d, hd, hlive, -⟩ := h.counts p hp
    exact ⟨d, by rw [List.getElem?_append_left (h.inside p hp)]; exact hd, hlive⟩

/-- Within a step the counts are right as well. -/
theorem Ok.midway {l : HolderLabel} (h : Ok s) (hstep : s.step l = some s') : ∀ m ∈ s.midway l, RefsRight m := by
  intro m hm
  cases l with
  | socket r closes =>
      simp only [ChunkHolders.midway] at hm
      split at hm
      case isFalse => cases hm
      case isTrue =>
        obtain ⟨m', hm', -⟩ := Option.map_eq_some_iff.mp hstep
        have hpc : s.toRecv.pc = .reading := RecvMem.reading_of_socket hm'
        obtain rfl | hm := List.mem_cons.mp hm
        · exact refsRight_new h.right
        · obtain rfl := List.mem_singleton.mp hm
          obtain ⟨t, hnew, -⟩ := RecvMem.newChunk_spec h.inv hpc
          obtain ⟨hright, hheld⟩ := (toRecv_right_iff.mpr h.right).newChunk hnew
          have hbusy : s.pc ≠ .idle := ne_of_eq_of_ne hpc (by decide)
          rw [hnew]
          refine (holdersRight_of_exact (toRecv_right_iff.mp ?_)).toRefsRight
          rw [toRecv_ofRecv (h.conn hbusy) hheld]
          exact hright
  | package a =>
      simp only [ChunkHolders.midway] at hm
      simp only [ChunkHolders.step] at hstep
      split at hm
      case h_2 => cases hm
      case h_1 r hr =>
        obtain ⟨v, hv, rfl⟩ := List.mem_map.mp hm
        have hchunks := HeldVec.chunks_chunkIovResize (Option.mem_toList.mp hv)
        split at hstep
        case h_2 => contradiction
        case h_1 =>
          split at hstep
          case isFalse => contradiction
          case isTrue hreq => exact (holdersRight_of_exact (Handled.set h.right (hreq r hr) hchunks).right).toRefsRight
  | call i => cases hm
  | reset r => cases hm
  | drop r bytes => cases hm
  | addPtr r len doFree => cases hm

/-- **The counts are right.**  In a run that reads headers in held chunks only, every chunk
counts its holders after every step and within it, it is freed when it has none, and what
is held is not freed. -/
theorem holders_right_of_readsKept {ls : List HolderLabel} (hstart : s.Start)
    (hrun : Run (Guarded ReadsKept Step) s ls s') :
    HoldersRight s' ∧ ∀ l t, Step s' l t → ∀ m ∈ s'.midway l, RefsRight m := by
  have hok : Ok s' := hrun.guarded_invariant (fun _ _ _ h hreads hstep => h.step hreads hstep) hstart.ok
  exact ⟨holdersRight_of_exact hok.right, fun l t hstep => hok.midway hstep⟩

/-- Two bytes for a request, sent in two parts; the connection keeps its chunk. -/
theorem holders_right_two_bytes : ∃ s : ChunkHolders, Run Step { fds := [none], vecs := [{}] }
    [.call 0, .socket (.data [1, 6, 0, 1, 0, 2, 0, 0, 7, 8]) true, .package {}, .socket .again true, .drop 0 1] s ∧
      s.holders = [0, 0] ∧ s.HoldersRight := by
  obtain ⟨s, hs⟩ : ∃ s, [HolderLabel.call 0, .socket (.data [1, 6, 0, 1, 0, 2, 0, 0, 7, 8]) true, .package {},
      .socket .again true, .drop 0 1].foldlM (fun s l => if ReadsKept s l then step s l else none)
      { fds := [none], vecs := [{}] } = some s ∧ s.holders = [0, 0] := ⟨_, rfl, rfl⟩
  have hstart : Start { fds := [none], vecs := [{}] } := ⟨rfl, by simp, by simp, rfl⟩
  have hrun := Run.guarded_of_foldlM hs.1
  exact ⟨s, hrun.of_guarded, hs.2, (holders_right_of_readsKept hstart hrun).1⟩

/-- A record of 8148 bytes is refused, and fills the chunk of the connection.  In the next
call nothing is read: the record is added to the vector from the chunk that was freed. -/
theorem not_refsRight_refused_record : ∃ s : ChunkHolders, Run Step { fds := [none], vecs := [{}] }
    [.call 0, .socket (.data ([1, 6, 0, 1, 31, 204, 0, 0] ++ List.replicate 8140 0)) true, .package { sent := false },
      .call 0, .socket .again true, .package {}] s ∧ ¬ s.RefsRight := by
  have hfreed : ([HolderLabel.call 0, .socket (.data ([1, 6, 0, 1, 31, 204, 0, 0] ++ List.replicate 8140 0)) true,
      .package { sent := false }, .call 0, .socket .again true, .package {}].foldlM step
      { fds := [none], vecs := [{}] }).any
        (fun s => decide (0 ∈ s.holders) && (s.mem[0]?).any fun c => !c.live) = true := by
    decide +kernel
  obtain ⟨s, hs, hheld⟩ := (Option.any_eq_true _ _).mp hfreed
  obtain ⟨hmem, hdead⟩ := Bool.and_eq_true_iff.mp hheld
  obtain ⟨c, hc, hnot⟩ := (Option.any_eq_true _ _).mp hdead
  refine ⟨s, Run.of_foldlM hs, fun hright => ?_⟩
  obtain ⟨d, hd, hlive⟩ := hright.live 0 (of_decide_eq_true hmem)
  obtain rfl := Option.some.inj (hc.symm.trans hd)
  rw [hlive] at hnot
  exact Bool.false_ne_true hnot

end ChunkHolders

end Monkey.Fastcgi
