import Monkey.Fastcgi.Recv
import Monkey.Lib.RefCount

/-!
# Monkey.Fastcgi.RecvMemory

The memory under `fcgi_recv_response`: the chunks with their references, the pointers
into them, and every stretch of bytes that is read on the way, step by step.

A step is a call, one `socket_read`, or one package that was handed over.  The next
header is read at the end of the step before it, so a package is complete when its step
comes.  What the handler answers and what `socket_read` returns are the labels, and
memory is always granted.
-/

namespace Monkey.Fastcgi

/-! ## the code -/

/-- `struct chunk_ptr`: `pos` is where its data is in the chunk. -/
structure ChunkPtr where
  parent : Option Nat := none
  pos : Nat := 0
  len : Nat := 0
deriving DecidableEq, Repr

/-- Bytes that were read, in the chunk as it was then.  `pkg` is where the package begins
that they are part of, and its `body_len`; there is none for the bytes that
`fcgi_fd_set_chunk` copies. -/
structure ChunkRead where
  chunk : Counted Chunk
  pos : Nat
  len : Nat
  pkg : Option (Nat × Nat) := none
deriving DecidableEq, Repr

/-- What the handler did with a package: whether there is a request of its number, what it
returned, whether the body was added to an output vector, and the references that were
given back with a recycled request. -/
structure PkgAnswer where
  found : Bool := true
  ok : Bool := true
  queued : Bool := false
  dropped : List Nat := []
deriving DecidableEq, Repr

/-- Where a call is: between two calls, before a `socket_read`, or before a complete
package; `done` is the variable. -/
inductive RecvPc
  | idle
  | reading
  | package (done : Bool) (h : FcgiHeader)
deriving DecidableEq, Repr

/-- The memory and the variables of `fcgi_recv_response`: `chunk` is that of the
connection, `held` the references of the output vectors. -/
structure RecvMem where
  mem : Pool Chunk := []
  held : List Nat := []
  chunk : Option Nat := none
  read : ChunkPtr := {}
  pkgSize : Nat := 0
  inherit : Nat := 0
  pc : RecvPc := .idle
  log : List ChunkRead := []
deriving DecidableEq, Repr

/-- A call, what `socket_read` returned and whether the connection can be set to closing,
the answer to a package, or references given back between two calls. -/
inductive RecvLabel
  | call
  | socket (r : ReadResult) (closes : Bool)
  | package (a : PkgAnswer)
  | drop (ps : List Nat)
deriving DecidableEq, Repr

namespace RecvMem

/-- The chunk of the connection. -/
def current (s : RecvMem) : Option (Counted Chunk) := s.chunk.bind fun p => s.mem[p]?

/-- `write.len`. -/
def room (s : RecvMem) : Nat := (s.current.map fun c => chunkWriteLen c.val).getD 0

/-- `chunk_read_ptr`. -/
def readPtr (s : RecvMem) : ChunkPtr :=
  match s.current with
  | some c => { parent := s.chunk, pos := c.val.read, len := c.val.write - c.val.read }
  | none => {}

/-- The chunk that the read pointer is in. -/
def parent (s : RecvMem) : Counted Chunk :=
  (s.read.parent.bind fun p => s.mem[p]?).getD { val := chunkNew 0 }

/-- `len` bytes of the package at the read pointer are read, from `offset` on. -/
def readPkg (s : RecvMem) (h : FcgiHeader) (offset len : Nat) : RecvMem :=
  { s with log := s.log ++
      [{ chunk := s.parent, pos := s.read.pos + offset, len := len, pkg := some (s.read.pos, h.bodyLen.toNat) }] }

/-- The end of an iteration: `chunk_set_read_ptr`, in the chunk of the connection. -/
def endIteration (done : Bool) (s : RecvMem) : RecvMem :=
  { s with
    mem :=
      match s.read.parent with
      | some p =>
          if s.chunk = some p then s.mem.modify p (Counted.map fun c => { c with read := s.read.pos }) else s.mem
      | none => s.mem
    pc := if done then .idle else .reading }

/-- The read pointer goes on. -/
def advance (n : Nat) (s : RecvMem) : RecvMem :=
  { s with read := { s.read with pos := s.read.pos + n, len := s.read.len - n } }

/-- An unfinished record is passed over, to be inherited. -/
def passOver (s : RecvMem) : RecvMem := { s.advance s.read.len with inherit := s.read.len }

/-- `while (read.len > 0)`, up to the next complete package. -/
def next (done : Bool) (s : RecvMem) : RecvMem :=
  if 0 < s.read.len then
    if s.read.len < fcgiHeaderLen then endIteration done { s.passOver with pkgSize := fcgiHeaderLen }
    else
      let h := fcgiReadHeader (s.parent.val.data.drop s.read.pos)
      let s := { s.readPkg h 0 7 with pkgSize := h.pkgSize }
      if s.read.len < h.pkgSize then endIteration done s.passOver else { s with pc := .package done h }
  else endIteration done s

/-- `fcgi_handle_pkg`. -/
def handlePkg (s : RecvMem) (h : FcgiHeader) (a : PkgAnswer) : RecvMem :=
  if a.found then
    if h.type = fcgiStderr then s.readPkg h fcgiHeaderLen h.bodyLen.toNat
    else if h.type = fcgiStdout then
      match s.read.parent with
      | some p =>
          if a.queued ∧ 0 < h.bodyLen.toNat then
            { s with mem := s.mem.modify p Counted.retain, held := p :: s.held }
          else s
      | none => s
    else if h.type = fcgiEndRequest then
      -- `fcgi_read_end_req_body` reads five bytes, whatever `body_len` is
      let s := s.readPkg h fcgiHeaderLen 5
      { s with mem := s.mem.releaseAll a.dropped, held := s.held.diff a.dropped }
    else s
  else s

/-- A new chunk, and `fcgi_fd_set_chunk`. -/
def newChunk (s : RecvMem) : Bool × RecvMem :=
  let a := chunkNew (if chunkSize < s.pkgSize then s.pkgSize else chunkSize)
  match fcgiFdSetChunk (s.current.map (·.val)) a s.inherit with
  | some c =>
      (true, { s with
        mem := (s.mem.releaseAll s.chunk.toList).add c
        chunk := some s.mem.length
        inherit := 0
        log := s.log ++
          if 0 < s.inherit then
            s.current.toList.map fun b => { chunk := b, pos := b.val.write - s.inherit, len := s.inherit }
          else [] })
  | none => (false, { s with mem := s.mem.add a, pc := .idle })

/-- `bytes` are written to the chunk of the connection. -/
def store (s : RecvMem) (bytes : Bytes) : RecvMem :=
  match s.chunk with
  | some p => { s with mem := s.mem.modify p (Counted.map fun c => { c with data := c.data ++ bytes }) }
  | none => s

/-- `socket_read` into the chunk of the connection, and the packages. -/
def receive (s : RecvMem) (r : ReadResult) (closes : Bool) : Option RecvMem :=
  match r with
  | .data bytes =>
      if 0 < bytes.length ∧ bytes.length ≤ s.room then
        let s := s.store bytes
        some (next false { s with read := s.readPtr })
      else none
  | .again => some (next true s)
  | .eof => some (if closes then next true s else { s with pc := .idle })
  | .error => some { s with pc := .idle }

/-- A step; it has no result where it is not possible. -/
def step (s : RecvMem) : RecvLabel → Option RecvMem
  | .call => if s.pc = .idle then some { s with read := s.readPtr, pkgSize := 0, inherit := 0, pc := .reading } else none
  | .socket r closes =>
      if s.pc = .reading then
        if 0 < s.inherit ∨ s.room < fcgiHeaderLen then
          match s.newChunk with
          | (true, s) => s.receive r closes
          | (false, s) => some s
        else s.receive r closes
      else none
  | .package a =>
      match s.pc with
      | .package done h =>
          if a.dropped.Subperm s.held then
            let s := s.handlePkg h a
            some (if a.found && a.ok then next done (s.advance h.pkgSize) else { s with pc := .idle })
          else none
      | _ => none
  | .drop ps =>
      if s.pc = .idle ∧ ps.Subperm s.held then
        some { s with mem := s.mem.releaseAll ps, held := s.held.diff ps }
      else none

def Step (s : RecvMem) (l : RecvLabel) (s' : RecvMem) : Prop := s.step l = some s'

end RecvMem

/-! ## what is promised -/

/-- The bytes lie in a live chunk, before its write position; those of a package lie behind
the read position, in its header and body. -/
structure ChunkRead.InPlace (r : ChunkRead) : Prop where
  live : r.chunk.live = true
  written : r.pos + r.len ≤ r.chunk.val.write
  pkg : ∀ start bodyLen, r.pkg = some (start, bodyLen) →
    r.chunk.val.read ≤ r.pos ∧ start ≤ r.pos ∧ r.pos + r.len ≤ start + fcgiHeaderLen + bodyLen

/-- `read ≤ write ≤ size`. -/
def Chunk.InBounds (c : Chunk) : Prop := c.read ≤ c.write ∧ c.write ≤ c.size

namespace RecvMem

/-- All bytes were read in place, and the positions of every chunk are in bounds. -/
structure Safe (s : RecvMem) : Prop where
  log : ∀ r ∈ s.log, r.InPlace
  bounds : ∀ c ∈ s.mem, c.val.InBounds

/-- What a step must not meet: a header's worth of unread bytes in a chunk without room for
a header, when nothing is read and no output vector holds the chunk; an `END_REQUEST` of
less than five bytes; and the last reference to such a chunk given back with the package. -/
def Meets (s : RecvMem) : RecvLabel → Prop
  | .socket r closes =>
      r = .again ∨ (r = .eof ∧ closes = true) → s.room < fcgiHeaderLen → fcgiHeaderLen ≤ s.read.len →
        ∀ p ∈ s.chunk, p ∈ s.held
  | .package a =>
      match s.pc with
      | .package _ h =>
          a.found = true → h.type = fcgiEndRequest →
            5 ≤ h.bodyLen.toNat ∧
              (a.ok = true → h.pkgSize + fcgiHeaderLen ≤ s.read.len → s.read.parent ≠ s.chunk →
                ∀ p ∈ s.read.parent, p ∈ s.held.diff a.dropped)
      | _ => True
  | _ => True

instance (s : RecvMem) (l : RecvLabel) : Decidable (Meets s l) :=
  match l with
  | .call => inferInstanceAs (Decidable True)
  | .socket .. => inferInstanceAs (Decidable (_ → _ → _ → _))
  | .package a =>
      match hpc : s.pc with
      | .package .. => decidable_of_iff (_ → _ → _ ∧ (_ → _ → _ → _)) (by rw [Meets, hpc])
      | .idle => isTrue (by rw [Meets, hpc]; trivial)
      | .reading => isTrue (by rw [Meets, hpc]; trivial)
  | .drop _ => inferInstanceAs (Decidable True)

/-! ## the invariant -/

/-- What holds at every point of a step. -/
structure Core (s : RecvMem) : Prop where
  bounds : ∀ c ∈ s.mem, c.val.InBounds
  log : ∀ r ∈ s.log, r.InPlace
  counts : s.mem.Counts (s.chunk.toList ++ s.held)

/-- The read pointer goes up to the write position of its chunk. -/
structure PtrOk (s : RecvMem) : Prop where
  inside : ∀ p, s.read.parent = some p →
    ∃ c, s.mem[p]? = some c ∧ c.val.read ≤ s.read.pos ∧ s.read.pos + s.read.len = c.val.write
  null : s.read.parent = none → s.read.len = 0

/-- The chunk of the read pointer has a reference. -/
def Kept (s : RecvMem) : Prop := ∀ p, s.read.parent = some p → s.chunk = some p ∨ p ∈ s.held

/-- What holds between two steps. -/
def Inv (s : RecvMem) : Prop :=
  Core s ∧
    match s.pc with
    | .idle => True
    | .reading =>
        PtrOk s ∧ s.read.parent = s.chunk ∧
          (0 < s.inherit → s.read.len = 0 ∧ s.inherit < s.pkgSize ∧ s.inherit ≤ s.parent.val.write)
    | .package done h =>
        PtrOk s ∧ s.inherit = 0 ∧ h.pkgSize ≤ s.read.len ∧ Kept s ∧
          (done = false → s.read.parent = s.chunk)

variable {s s' : RecvMem} {done : Bool}

theorem parent_eq {p : Nat} {c : Counted Chunk} (hp : s.read.parent = some p) (hc : s.mem[p]? = some c) :
    s.parent = c := by
  rw [parent, hp, Option.bind_some, hc, Option.getD_some]

theorem current_eq {p : Nat} (hp : s.chunk = some p) : s.current = s.mem[p]? := by
  rw [current, hp, Option.bind_some]

theorem readPtr_eq {p : Nat} {c : Counted Chunk} (hp : s.chunk = some p) (hc : s.mem[p]? = some c) :
    s.readPtr = { parent := some p, pos := c.val.read, len := c.val.write - c.val.read } := by
  rw [readPtr, current_eq hp, hc, hp]

theorem Core.safe (h : Core s) : Safe s := ⟨h.log, h.bounds⟩

theorem Core.alive (h : Core s) {p : Nat} (hp : s.chunk = some p ∨ p ∈ s.held) :
    ∃ c, s.mem[p]? = some c ∧ c.live = true := by
  obtain ⟨c, hc, hlive, -⟩ := h.counts p (by
    rw [List.mem_append, Option.mem_toList]
    exact hp)
  exact ⟨c, hc, hlive⟩

/-! ## the end of an iteration -/

theorem Core.endIteration (h : Core s) (hptr : PtrOk s) : Core (s.endIteration done) := by
  unfold RecvMem.endIteration
  split
  · next p hp =>
      obtain ⟨c, hc, -, hend⟩ := hptr.inside p hp
      refine ⟨?_, h.log, ?_⟩
      · dsimp only
        split
        · refine Pool.forall_val_modify h.bounds fun d hd => ?_
          obtain rfl := Option.some.inj (hc.symm.trans hd)
          exact ⟨(Nat.le_add_right ..).trans_eq hend, (h.bounds c (List.mem_of_getElem? hc)).2⟩
        · exact h.bounds
      · dsimp only
        split
        · exact h.counts.modify p _
        · exact h.counts
  · exact ⟨h.bounds, h.log, h.counts⟩

/-- The pointer reaches the end: nothing is left, or what is left is passed over. -/
theorem Inv.endIteration (h : Core s) (hptr : PtrOk s) (hend : s.read.len = 0)
    (hhere : done = false → s.read.parent = s.chunk)
    (hinherit : 0 < s.inherit → s.inherit < s.pkgSize ∧ s.inherit ≤ s.parent.val.write) :
    Inv (s.endIteration done) := by
  refine ⟨h.endIteration hptr, ?_⟩
  cases done with
  | true => trivial
  | false =>
      show PtrOk (s.endIteration false) ∧ _
      have hmem : ∀ p, s.read.parent = some p → ∃ c, s.mem[p]? = some c ∧
          (s.endIteration false).mem[p]? = some (c.map fun c => { c with read := s.read.pos }) ∧
          s.read.pos = c.val.write := by
        intro p hp
        obtain ⟨c, hc, -, hlast⟩ := hptr.inside p hp
        refine ⟨c, hc, ?_, by omega⟩
        simp only [RecvMem.endIteration, hp]
        rw [if_pos (by rw [← hhere rfl, hp]), List.getElem?_modify_eq, hc]
        rfl
      refine ⟨⟨fun p hp => ?_, fun _ => hend⟩, hhere rfl, fun hpos => ?_⟩
      · obtain ⟨c, -, hc', hlast⟩ := hmem p hp
        refine ⟨_, hc', le_rfl, ?_⟩
        show s.read.pos + s.read.len = c.val.write
        omega
      · obtain ⟨hlt, hle⟩ := hinherit hpos
        refine ⟨hend, hlt, hle.trans ?_⟩
        cases hp : s.read.parent with
        | none => simp [parent, hp, chunkNew, Chunk.write]
        | some p =>
            obtain ⟨c, hc, hc', -⟩ := hmem p hp
            rw [parent_eq hp hc, parent_eq (s := s.endIteration false) hp hc']
            exact le_rfl

/-! ## the next package -/

/-- Bytes read from the package at the read pointer. -/
theorem Core.readPkg (h : Core s) (hptr : PtrOk s) (hkept : Kept s) (header : FcgiHeader) (offset len : Nat)
    (hpos : 0 < s.read.len) (hin : offset + len ≤ s.read.len)
    (hbody : offset + len ≤ fcgiHeaderLen + header.bodyLen.toNat) : Core (s.readPkg header offset len) := by
  refine ⟨h.bounds, ?_, h.counts⟩
  intro r hr
  obtain hr | hr := List.mem_append.mp hr
  · exact h.log r hr
  · obtain rfl := List.mem_singleton.mp hr
    cases hp : s.read.parent with
    | none =>
        have := hptr.null hp
        omega
    | some p =>
        obtain ⟨c, hc, hread, hend⟩ := hptr.inside p hp
        obtain ⟨c', hc', hlive⟩ := h.alive (hkept p hp)
        obtain rfl := Option.some.inj (hc.symm.trans hc')
        refine ⟨?_, ?_, ?_⟩ <;> dsimp only <;> rw [parent_eq hp hc]
        · exact hlive
        · omega
        · rintro start bodyLen ⟨⟩
          omega

theorem PtrOk.passOver (h : PtrOk s) : PtrOk s.passOver := by
  refine ⟨fun p hp => ?_, fun _ => Nat.sub_self _⟩
  obtain ⟨c, hc, hread, hend⟩ := h.inside p hp
  refine ⟨c, hc, ?_, ?_⟩
  · show c.val.read ≤ s.read.pos + s.read.len
    omega
  · show s.read.pos + s.read.len + (s.read.len - s.read.len) = c.val.write
    omega

theorem Inv.passOver (h : Core s) (hptr : PtrOk s) (hhere : done = false → s.read.parent = s.chunk)
    (hsize : s.read.len < s.pkgSize) : Inv (s.passOver.endIteration done) := by
  refine Inv.endIteration ⟨h.bounds, h.log, h.counts⟩ hptr.passOver (Nat.sub_self _) hhere fun hpos => ⟨hsize, ?_⟩
  show s.read.len ≤ s.parent.val.write
  cases hp : s.read.parent with
  | none =>
      rw [hptr.null hp]
      exact Nat.zero_le _
  | some p =>
      obtain ⟨c, hc, -, hend⟩ := hptr.inside p hp
      rw [parent_eq hp hc]
      omega

/-- **The next header** is read in place, if the chunk it is in is kept. -/
theorem Inv.next (h : Core s) (hptr : PtrOk s) (hinherit : s.inherit = 0)
    (hhere : done = false → s.read.parent = s.chunk) (hkept : fcgiHeaderLen ≤ s.read.len → Kept s) :
    Inv (s.next done) := by
  unfold RecvMem.next
  split
  case isFalse hpos => exact Inv.endIteration h hptr (by omega) hhere fun hlt => by omega
  case isTrue hpos =>
    split
    case isTrue hshort =>
      exact @Inv.passOver { s with pkgSize := fcgiHeaderLen } done ⟨h.bounds, h.log, h.counts⟩
        ⟨hptr.inside, hptr.null⟩ hhere hshort
    case isFalse hlong =>
      have hkept := hkept (by omega)
      dsimp only
      generalize fcgiReadHeader (s.parent.val.data.drop s.read.pos) = header
      have hcore : Core { s.readPkg header 0 7 with pkgSize := header.pkgSize } := by
        obtain ⟨hbounds, hlog, hcounts⟩ := h.readPkg hptr hkept header 0 7
          hpos (by unfold fcgiHeaderLen at hlong; omega) (by unfold fcgiHeaderLen; omega)
        exact ⟨hbounds, hlog, hcounts⟩
      have hptr' : PtrOk { s.readPkg header 0 7 with pkgSize := header.pkgSize } := ⟨hptr.inside, hptr.null⟩
      split
      case isTrue hshort => exact Inv.passOver hcore hptr' hhere hshort
      case isFalse hcomplete =>
        exact ⟨⟨hcore.bounds, hcore.log, hcore.counts⟩, ⟨hptr.inside, hptr.null⟩, hinherit, Nat.le_of_not_lt hcomplete,
          hkept, hhere⟩

/-- What has been read stays in the log. -/
theorem mem_next_log {r : ChunkRead} (h : r ∈ s.log) : r ∈ (s.next done).log := by
  unfold RecvMem.next
  split
  · split
    · exact h
    · dsimp only
      split
      · exact List.mem_append_left _ h
      · exact List.mem_append_left _ h
  · exact h

/-- A header was read in a live chunk only. -/
theorem parent_live_of_next (hlen : fcgiHeaderLen ≤ s.read.len) (hsafe : Safe (s.next done)) :
    s.parent.live = true := by
  obtain ⟨r, hr, hchunk⟩ : ∃ r ∈ (s.next done).log, r.chunk = s.parent := by
    have hpos : 0 < s.read.len := lt_of_lt_of_le (by decide) hlen
    unfold RecvMem.next
    rw [if_pos hpos, if_neg (Nat.not_lt.mpr hlen)]
    dsimp only
    split
    · exact ⟨_, List.mem_append_right _ (List.mem_singleton_self _), rfl⟩
    · exact ⟨_, List.mem_append_right _ (List.mem_singleton_self _), rfl⟩
  rw [← hchunk]
  exact (hsafe.log r hr).live

/-! ## a read -/

/-- What the old chunk gives a new one is all there, and fits. -/
theorem fcgiFdSetChunk_spec (h : Inv s) (hpc : s.pc = .reading) :
    ∃ c, fcgiFdSetChunk (s.current.map (·.val))
        (chunkNew (if chunkSize < s.pkgSize then s.pkgSize else chunkSize)) s.inherit = some c ∧ c.InBounds ∧
      ∀ b, s.current = some b → s.inherit ≤ b.val.write := by
  obtain ⟨hcore, hrest⟩ := h
  rw [hpc] at hrest
  obtain ⟨-, hhere, hinherit⟩ := hrest
  generalize hsize : (if chunkSize < s.pkgSize then s.pkgSize else chunkSize) = size
  have hle : s.pkgSize ≤ size := by
    rw [← hsize]
    split <;> omega
  have hnew : (chunkNew size).InBounds := ⟨le_rfl, Nat.zero_le _⟩
  cases hchunk : s.chunk with
  | none =>
      have hcurrent : s.current = none := by rw [current, hchunk, Option.bind_none]
      have hzero : s.inherit = 0 := by
        by_contra hne
        obtain ⟨-, -, hlast⟩ := hinherit (Nat.pos_of_ne_zero hne)
        rw [parent, hhere, hchunk] at hlast
        exact hne (Nat.le_zero.mp hlast)
      rw [hcurrent, hzero]
      exact ⟨chunkNew size, rfl, hnew, by simp⟩
  | some p =>
      obtain ⟨b, hb, -⟩ := hcore.alive (.inl hchunk)
      have hcurrent : s.current = some b := (current_eq hchunk).trans hb
      rw [hcurrent, Option.map_some, fcgiFdSetChunk]
      by_cases hpos : 0 < s.inherit
      · obtain ⟨-, hlt, hlast⟩ := hinherit hpos
        rw [parent_eq (hhere.trans hchunk) hb] at hlast
        have hroom : s.inherit < (chunkNew size).size - (chunkNew size).write := hlt.trans_le hle
        rw [if_pos hpos, if_pos ⟨hlast, hroom⟩]
        refine ⟨_, rfl, ⟨Nat.zero_le _, ?_⟩, by rintro _ ⟨⟩; exact hlast⟩
        show ([] ++ b.val.data.drop (b.val.write - s.inherit)).length ≤ size
        rw [List.nil_append, List.length_drop]
        have hwrite : b.val.data.length = b.val.write := rfl
        omega
      · rw [if_neg hpos]
        exact ⟨chunkNew size, rfl, hnew, by rintro _ ⟨⟩; omega⟩

/-- **A new chunk**: the read pointer stays in the old one, which is freed when no output
vector holds it. -/
theorem newChunk_spec (h : Inv s) (hpc : s.pc = .reading) :
    ∃ s', s.newChunk = (true, s') ∧ Core s' ∧ PtrOk s' ∧ s'.inherit = 0 ∧ s'.read = s.read ∧
      s'.held = s.held ∧ (∃ p, s'.chunk = some p) ∧
      ∀ p, s.read.parent = some p → p ∉ s.held → ∃ c, s'.mem[p]? = some c ∧ c.live = false := by
  obtain ⟨c, hset, hbounds, hcopied⟩ := fcgiFdSetChunk_spec h hpc
  obtain ⟨hcore, hrest⟩ := h
  rw [hpc] at hrest
  obtain ⟨hptr, hhere, -⟩ := hrest
  have hcount : ∀ q, (s.chunk.toList ++ s.held).count q = s.held.count q + s.chunk.toList.count q := by
    intro q
    rw [List.count_append, Nat.add_comm]
  have hold : ∀ (p : Nat) (d : Counted Chunk), (s.mem.releaseAll s.chunk.toList)[p]? = some d →
      ((s.mem.releaseAll s.chunk.toList).add c)[p]? = some d := by
    intro p d hd
    rw [Pool.add, List.getElem?_append_left (List.getElem?_eq_some_iff.mp hd).1, hd]
  have hnew : s.newChunk =
      (true, { s with
        mem := (s.mem.releaseAll s.chunk.toList).add c
        chunk := some s.mem.length
        inherit := 0
        log := s.log ++
          if 0 < s.inherit then
            s.current.toList.map fun b => { chunk := b, pos := b.val.write - s.inherit, len := s.inherit }
          else [] }) := by
    simp only [newChunk, hset]
  refine ⟨_, hnew, ⟨?_, ?_, ?_⟩, ⟨fun p hp => ?_, hptr.null⟩, rfl, rfl, rfl, ⟨_, rfl⟩, fun p hp hfree => ?_⟩
  · intro d hd
    obtain hd | hd := List.mem_append.mp hd
    · exact Pool.forall_val_releaseAll hcore.bounds d hd
    · obtain rfl := List.mem_singleton.mp hd
      exact hbounds
  · intro r hr
    obtain hr | hr := List.mem_append.mp hr
    · exact hcore.log r hr
    · -- the bytes copied are the last of the chunk of the connection
      split at hr
      case isFalse => contradiction
      case isTrue =>
        obtain ⟨b, hb, rfl⟩ := List.mem_map.mp hr
        have hb := Option.mem_toList.mp hb
        obtain ⟨p, hp, hbp⟩ := Option.bind_eq_some_iff.mp hb
        obtain ⟨b', hb', hlive⟩ := hcore.alive (.inl hp)
        obtain rfl := Option.some.inj (hbp.symm.trans hb')
        refine ⟨hlive, ?_, by rintro _ _ ⟨⟩⟩
        have := hcopied b hb
        dsimp only
        omega
  · have hadded := (hcore.counts.releaseAll hcount).add c
    rwa [Pool.length_releaseAll] at hadded
  · obtain ⟨d, hd, hread, hend⟩ := hptr.inside p hp
    refine ⟨_, hold p _ (by rw [Pool.getElem?_releaseAll, hd]; rfl), ?_⟩
    rw [Counted.release_iterate]
    exact ⟨hread, hend⟩
  · obtain ⟨d, hd, hfreed⟩ := hcore.counts.freed hcount
      (List.mem_append_left _ (by rw [← hhere, hp]; exact List.mem_singleton_self p)) hfree
    exact ⟨d, hold p d hd, hfreed⟩

/-- What was read goes behind the write position, and the read pointer is up to it. -/
theorem store_spec {bytes : Bytes} {p : Nat} (h : Core s) (hchunk : s.chunk = some p)
    (hlen : bytes.length ≤ s.room) :
    Core { s.store bytes with read := (s.store bytes).readPtr } ∧
      PtrOk { s.store bytes with read := (s.store bytes).readPtr } ∧
      (s.store bytes).readPtr.parent = some p := by
  obtain ⟨c, hc, -⟩ := h.alive (.inl hchunk)
  have hroom : bytes.length ≤ c.val.size - c.val.write := by rwa [room, current_eq hchunk, hc] at hlen
  have hbounds := h.bounds c (List.mem_of_getElem? hc)
  set filled := Counted.map (fun c : Chunk => { c with data := c.data ++ bytes }) c with hfilled
  have hwrite : filled.val.write = c.val.write + bytes.length := List.length_append ..
  have hread : filled.val.read ≤ filled.val.write := hbounds.1.trans (by omega)
  have hstore : s.store bytes =
      { s with mem := s.mem.modify p (Counted.map fun c => { c with data := c.data ++ bytes }) } := by
    rw [store, hchunk]
  have hmem : (s.store bytes).mem[p]? = some filled := by
    rw [hstore, List.getElem?_modify_eq, hc]
    rfl
  have hchunk' : (s.store bytes).chunk = some p := by rw [hstore, hchunk]
  refine ⟨⟨?_, ?_, ?_⟩, ⟨fun q hq => ?_, fun hnone => ?_⟩, ?_⟩
  · rw [hstore]
    refine Pool.forall_val_modify h.bounds fun d hd => ?_
    obtain rfl := Option.some.inj (hc.symm.trans hd)
    refine ⟨hread, ?_⟩
    show filled.val.write ≤ c.val.size
    have := hbounds.2
    omega
  · rw [hstore]
    exact h.log
  · rw [hstore]
    exact h.counts.modify p _
  · dsimp only at hq ⊢
    rw [readPtr_eq hchunk' hmem] at hq ⊢
    obtain rfl := Option.some.inj hq
    exact ⟨filled, hmem, le_rfl, Nat.add_sub_cancel' hread⟩
  · dsimp only at hnone
    rw [readPtr_eq hchunk' hmem] at hnone
    contradiction
  · rw [readPtr_eq hchunk' hmem]

/-- **A read** into a chunk that has room. -/
theorem Inv.receive {r : ReadResult} {closes : Bool} {p : Nat} (h : Core s) (hptr : PtrOk s)
    (hinherit : s.inherit = 0) (hchunk : s.chunk = some p)
    (hkept : r = .again ∨ (r = .eof ∧ closes = true) → fcgiHeaderLen ≤ s.read.len → Kept s)
    (hstep : s.receive r closes = some s') : Inv s' := by
  cases r with
  | data bytes =>
      simp only [RecvMem.receive] at hstep
      split at hstep
      case isFalse => contradiction
      case isTrue hlen =>
        obtain rfl := Option.some.inj hstep
        obtain ⟨hcore, hptr', hparent⟩ := store_spec h hchunk hlen.2
        have hsame : (s.store bytes).chunk = some p ∧ (s.store bytes).inherit = 0 := by
          rw [store, hchunk]
          exact ⟨rfl, hinherit⟩
        have hhere : (s.store bytes).readPtr.parent = (s.store bytes).chunk := hparent.trans hsame.1.symm
        refine Inv.next hcore hptr' hsame.2 (fun _ => hhere) fun _ q hq => .inl ?_
        exact hhere.symm.trans hq
  | again =>
      obtain rfl := Option.some.inj hstep
      exact Inv.next h hptr hinherit (fun hf => by contradiction) (hkept (.inl rfl))
  | eof =>
      obtain rfl := Option.some.inj hstep
      split
      · next hcloses => exact Inv.next h hptr hinherit (fun hf => by contradiction) (hkept (.inr ⟨rfl, hcloses⟩))
      · exact ⟨⟨h.bounds, h.log, h.counts⟩, trivial⟩
  | error =>
      obtain rfl := Option.some.inj hstep
      exact ⟨⟨h.bounds, h.log, h.counts⟩, trivial⟩

/-! ## a package -/

/-- The handler changes the chunks, the references and the log. -/
theorem handlePkg_eq (s : RecvMem) (header : FcgiHeader) (a : PkgAnswer) :
    ∃ mem held log, s.handlePkg header a = { s with mem := mem, held := held, log := log } := by
  unfold handlePkg
  split
  · split
    · exact ⟨_, _, _, rfl⟩
    · split
      · split
        · split
          · exact ⟨_, _, _, rfl⟩
          · exact ⟨_, _, _, rfl⟩
        · exact ⟨_, _, _, rfl⟩
      · split
        · exact ⟨_, _, _, rfl⟩
        · exact ⟨_, _, _, rfl⟩
  · exact ⟨_, _, _, rfl⟩

/-- References that the vectors had are given back. -/
theorem count_diff_of_subperm {chunk held ps : List Nat} (h : ps.Subperm held) (q : Nat) :
    (chunk ++ held).count q = (chunk ++ held.diff ps).count q + ps.count q := by
  have := h.count_le q
  rw [List.count_append, List.count_append, List.count_diff]
  omega

/-- The values of the chunks are as before, so the read pointer is. -/
theorem PtrOk.of_val {t : RecvMem} (h : PtrOk s) (hread : t.read = s.read)
    (hval : ∀ (p : Nat) (c : Counted Chunk), s.mem[p]? = some c → ∃ c', t.mem[p]? = some c' ∧ c'.val = c.val) :
    PtrOk t := by
  refine ⟨fun p hp => ?_, fun hnone => ?_⟩
  · rw [hread] at hp ⊢
    obtain ⟨c, hc, hpos, hend⟩ := h.inside p hp
    obtain ⟨c', hc', hsame⟩ := hval p c hc
    exact ⟨c', hc', by rw [hsame]; exact hpos, by rw [hsame]; exact hend⟩
  · rw [hread] at hnone ⊢
    exact h.null hnone

/-- **A package** is read in place, if it is no `END_REQUEST` of less than five bytes. -/
theorem handlePkg_spec {header : FcgiHeader} {a : PkgAnswer} (h : Core s) (hptr : PtrOk s) (hkept : Kept s)
    (hsize : header.pkgSize ≤ s.read.len) (hdrop : a.dropped.Subperm s.held)
    (hbody : a.found = true → header.type = fcgiEndRequest → 5 ≤ header.bodyLen.toNat) :
    Core (s.handlePkg header a) ∧ PtrOk (s.handlePkg header a) ∧
      (Kept (s.handlePkg header a) ∨ a.found = true ∧ header.type = fcgiEndRequest ∧
        (s.handlePkg header a).held = s.held.diff a.dropped) := by
  have hpos : 0 < s.read.len := (header.le_pkgSize.trans hsize).trans_lt' (by decide)
  have hfit : fcgiHeaderLen + header.bodyLen.toNat ≤ s.read.len := by
    unfold FcgiHeader.pkgSize at hsize
    omega
  unfold handlePkg
  split
  case isFalse => exact ⟨h, hptr, .inl hkept⟩
  case isTrue hfound =>
    split
    case isTrue => exact ⟨h.readPkg hptr hkept header _ _ hpos hfit le_rfl, ⟨hptr.inside, hptr.null⟩, .inl hkept⟩
    case isFalse =>
      split
      case isTrue =>
        split
        · next p hp =>
            split
            · -- the output vector takes a reference to the chunk
              refine ⟨⟨?_, h.log, ?_⟩, hptr.of_val rfl fun q c hc => ?_, .inl fun q hq => ?_⟩
              · exact Pool.forall_val_modify h.bounds fun c hc => h.bounds c (List.mem_of_getElem? hc)
              · have hmem : p ∈ s.chunk.toList ++ s.held := by
                  rw [List.mem_append, Option.mem_toList]
                  exact hkept p hp
                exact (h.counts.retain hmem).of_count fun q => by
                  simp only [List.count_cons, List.count_append]
                  omega
              · dsimp only
                rw [List.getElem?_modify, hc]
                split
                · exact ⟨_, rfl, rfl⟩
                · exact ⟨_, rfl, rfl⟩
              · exact (hkept q hq).imp_right (List.mem_cons_of_mem _)
            · exact ⟨h, hptr, .inl hkept⟩
        · exact ⟨h, hptr, .inl hkept⟩
      case isFalse =>
        split
        case isTrue hend =>
          have hread := h.readPkg hptr hkept header fcgiHeaderLen 5 hpos
            (by have := hbody hfound hend; omega) (by have := hbody hfound hend; omega)
          refine ⟨⟨Pool.forall_val_releaseAll hread.bounds, hread.log,
            hread.counts.releaseAll (count_diff_of_subperm hdrop)⟩, hptr.of_val rfl fun q c hc => ?_,
            .inr ⟨hfound, hend, rfl⟩⟩
          refine ⟨_, by dsimp only [readPkg]; rw [Pool.getElem?_releaseAll, hc]; rfl, ?_⟩
          rw [Counted.release_iterate]
        case isFalse => exact ⟨h, hptr, .inl hkept⟩

/-! ## a step -/

theorem PtrOk.advance {n : Nat} (h : PtrOk s) (hn : n ≤ s.read.len) : PtrOk (s.advance n) := by
  refine ⟨fun p hp => ?_, fun hnone => ?_⟩
  · obtain ⟨c, hc, hread, hend⟩ := h.inside p hp
    refine ⟨c, hc, ?_, ?_⟩
    · show c.val.read ≤ s.read.pos + n
      omega
    · show s.read.pos + n + (s.read.len - n) = c.val.write
      omega
  · show s.read.len - n = 0
    rw [h.null hnone, Nat.zero_sub]

theorem Inv.call (h : Inv s) (hstep : s.step .call = some s') : Inv s' := by
  simp only [RecvMem.step] at hstep
  split at hstep
  case isFalse => contradiction
  case isTrue =>
    obtain rfl := Option.some.inj hstep
    obtain ⟨hcore, -⟩ := h
    refine ⟨⟨hcore.bounds, hcore.log, hcore.counts⟩, ?_⟩
    show PtrOk { s with read := s.readPtr, pkgSize := 0, inherit := 0, pc := .reading } ∧ s.readPtr.parent = s.chunk ∧ _
    cases hchunk : s.chunk with
    | none =>
        have hptr : s.readPtr = {} := by rw [readPtr, current, hchunk, Option.bind_none]
        rw [hptr]
        exact ⟨⟨fun p hp => by contradiction, fun _ => rfl⟩, rfl, fun hpos => absurd hpos (lt_irrefl 0)⟩
    | some p =>
        obtain ⟨c, hc, -⟩ := hcore.alive (.inl hchunk)
        rw [readPtr_eq hchunk hc]
        refine ⟨⟨fun q hq => ?_, fun hnone => by contradiction⟩, rfl, fun hpos => absurd hpos (lt_irrefl 0)⟩
        obtain rfl := Option.some.inj hq
        exact ⟨c, hc, le_rfl, Nat.add_sub_cancel' (hcore.bounds c (List.mem_of_getElem? hc)).1⟩

theorem Inv.socket {r : ReadResult} {closes : Bool} (h : Inv s) (hmeets : Meets s (.socket r closes))
    (hstep : s.step (.socket r closes) = some s') : Inv s' := by
  simp only [RecvMem.step] at hstep
  split at hstep
  case isFalse => contradiction
  case isTrue hpc =>
    obtain ⟨t, hnew, hcore', hptr', hinherit', hread', hheld', ⟨p, hp⟩, -⟩ := newChunk_spec h hpc
    obtain ⟨hcore, hrest⟩ := h
    rw [hpc] at hrest
    obtain ⟨hptr, hhere, hinherit⟩ := hrest
    split at hstep
    case isTrue hneeds =>
      rw [hnew] at hstep
      refine Inv.receive hcore' hptr' hinherit' hp (fun hr hlen q hq => .inr ?_) hstep
      rw [hread'] at hlen hq
      rw [hheld']
      refine hmeets hr (hneeds.resolve_left fun hpos => ?_) hlen q (hhere ▸ hq)
      -- what is inherited was passed over
      have := (hinherit hpos).1
      unfold fcgiHeaderLen at hlen
      omega
    case isFalse hroom =>
      obtain ⟨c, hc⟩ : ∃ c, s.chunk = some c := by
        refine Option.ne_none_iff_exists'.mp fun hnone => hroom (.inr ?_)
        rw [room, current, hnone]
        exact (by decide : 0 < fcgiHeaderLen)
      exact Inv.receive hcore hptr (by omega) hc (fun _ _ q hq => .inl (hhere ▸ hq)) hstep

theorem Inv.package {a : PkgAnswer} (h : Inv s) (hmeets : Meets s (.package a))
    (hstep : s.step (.package a) = some s') : Inv s' := by
  simp only [RecvMem.step] at hstep
  split at hstep
  case h_2 => contradiction
  case h_1 done header hpc =>
    split at hstep
    case isFalse => contradiction
    case isTrue hdrop =>
      obtain rfl := Option.some.inj hstep
      obtain ⟨hcore, hrest⟩ := h
      rw [hpc] at hrest
      obtain ⟨hptr, hinherit, hsize, hkept, hhere⟩ := hrest
      simp only [Meets, hpc] at hmeets
      obtain ⟨hcore', hptr', hkept'⟩ := handlePkg_spec hcore hptr hkept hsize hdrop
        fun hfound hend => (hmeets hfound hend).1
      obtain ⟨mem, held, log, heq⟩ := handlePkg_eq s header a
      rw [heq] at hcore' hptr' hkept' ⊢
      split
      case isFalse => exact ⟨⟨hcore'.bounds, hcore'.log, hcore'.counts⟩, trivial⟩
      case isTrue hok =>
        refine Inv.next ⟨hcore'.bounds, hcore'.log, hcore'.counts⟩ (hptr'.advance hsize) hinherit hhere
          fun hlen => ?_
        obtain hkept' | ⟨hfound, hend, hheld⟩ := hkept'
        · exact hkept'
        · intro q hq
          by_cases hsame : s.read.parent = s.chunk
          · exact .inl (hsame.symm.trans hq)
          · have hlen : fcgiHeaderLen ≤ s.read.len - header.pkgSize := hlen
            have hleft : header.pkgSize + fcgiHeaderLen ≤ s.read.len := by
              unfold fcgiHeaderLen at hlen ⊢
              omega
            have hstill := (hmeets hfound hend).2 (Bool.and_eq_true_iff.mp hok).2 hleft hsame q hq
            dsimp only at hheld
            rw [← hheld] at hstill
            exact .inr hstill

theorem Inv.drop {ps : List Nat} (h : Inv s) (hstep : s.step (.drop ps) = some s') : Inv s' := by
  simp only [RecvMem.step] at hstep
  split at hstep
  case isFalse => contradiction
  case isTrue hdrop =>
    obtain rfl := Option.some.inj hstep
    obtain ⟨hcore, -⟩ := h
    refine ⟨⟨Pool.forall_val_releaseAll hcore.bounds, hcore.log,
      hcore.counts.releaseAll (count_diff_of_subperm hdrop.2)⟩, ?_⟩
    dsimp only
    rw [hdrop.1]
    trivial

/-- **What a step keeps** when it meets nothing of what it must not. -/
theorem Inv.step {l : RecvLabel} (h : Inv s) (hmeets : Meets s l) (hstep : s.step l = some s') : Inv s' := by
  cases l with
  | call => exact h.call hstep
  | socket r closes => exact h.socket hmeets hstep
  | package a => exact h.package hmeets hstep
  | drop ps => exact h.drop hstep

/-! ## runs -/

/-- An `END_REQUEST` is read in place when it has its five bytes. -/
theorem body_of_log {header : FcgiHeader} {a : PkgAnswer} (hfound : a.found = true)
    (hend : header.type = fcgiEndRequest) (hlog : ∀ r ∈ (s.handlePkg header a).log, r.InPlace) :
    5 ≤ header.bodyLen.toNat := by
  have hread := hlog ⟨s.parent, s.read.pos + fcgiHeaderLen, 5, some (s.read.pos, header.bodyLen.toNat)⟩ (by
    rw [handlePkg, if_pos hfound, if_neg (by rw [hend]; decide), if_neg (by rw [hend]; decide), if_pos hend]
    exact List.mem_append_right _ (List.mem_singleton_self _))
  obtain ⟨-, -, hle⟩ := hread.pkg _ _ rfl
  dsimp only at hle
  omega

/-- A header that was read in a live chunk was not that of a chunk given up. -/
theorem meets_socket {r : ReadResult} {closes : Bool} (h : Inv s) (hstep : s.step (.socket r closes) = some s')
    (hsafe : Safe s') : Meets s (.socket r closes) := by
  intro hr hroom hlen p hp
  by_contra hnot
  simp only [RecvMem.step] at hstep
  split at hstep
  case isFalse => contradiction
  case isTrue hpc =>
    obtain ⟨t, hnew, -, -, -, hread, -, -, hfreed⟩ := newChunk_spec h hpc
    obtain ⟨-, hrest⟩ := h
    rw [hpc] at hrest
    obtain ⟨-, hhere, -⟩ := hrest
    rw [if_pos (.inr hroom), hnew] at hstep
    obtain ⟨c, hc, hdead⟩ := hfreed p (hhere.trans hp) hnot
    have hparent : t.parent = c := parent_eq (by rw [hread, hhere]; exact hp) hc
    have hnext : s' = t.next true := by
      obtain rfl | ⟨rfl, rfl⟩ := hr
      · exact (Option.some.inj hstep).symm
      · exact (Option.some.inj hstep).symm
    have hlive := parent_live_of_next (by rw [hread]; exact hlen) (hnext ▸ hsafe)
    rw [hparent, hdead] at hlive
    contradiction

theorem meets_package {a : PkgAnswer} (h : Inv s) (hstep : s.step (.package a) = some s') (hsafe : Safe s') :
    Meets s (.package a) := by
  simp only [RecvMem.step] at hstep
  split at hstep
  case h_2 => contradiction
  case h_1 done header hpc =>
    split at hstep
    case isFalse => contradiction
    case isTrue hdrop =>
      obtain rfl := Option.some.inj hstep
      obtain ⟨hcore, hrest⟩ := h
      rw [hpc] at hrest
      obtain ⟨hptr, -, hsize, hkept, -⟩ := hrest
      simp only [Meets, hpc]
      intro hfound hend
      have hlog : ∀ r ∈ (s.handlePkg header a).log, r.InPlace := by
        intro r hr
        refine hsafe.log r ?_
        split
        · exact mem_next_log hr
        · exact hr
      refine ⟨body_of_log hfound hend hlog, fun hok hleft hother p hp => ?_⟩
      by_contra hnot
      have hmem : p ∈ s.chunk.toList ++ s.held := by
        rw [List.mem_append, Option.mem_toList]
        exact hkept p hp
      have hgone : p ∉ s.chunk.toList ++ s.held.diff a.dropped := by
        rw [List.mem_append, Option.mem_toList]
        rintro (hchunk | hheld)
        · exact hother (Option.mem_def.mp hp ▸ (Option.mem_def.mp hchunk).symm)
        · exact hnot hheld
      obtain ⟨c, hc, hdead⟩ := hcore.counts.freed (count_diff_of_subperm hdrop) hmem hgone
      have hreleased : (s.handlePkg header a).mem = s.mem.releaseAll a.dropped := by
        rw [handlePkg, if_pos hfound, if_neg (by rw [hend]; decide), if_neg (by rw [hend]; decide), if_pos hend]
        rfl
      rw [if_pos (by rw [hfound, hok]; rfl)] at hsafe
      obtain ⟨mem, held, log, heq⟩ := handlePkg_eq s header a
      rw [← hreleased, heq] at hc
      rw [heq] at hsafe
      have hlive := parent_live_of_next (by
        show fcgiHeaderLen ≤ s.read.len - header.pkgSize
        omega) hsafe
      have hparent : (advance header.pkgSize { s with mem := mem, held := held, log := log }).parent = c :=
        parent_eq hp hc
      rw [hparent, hdead] at hlive
      contradiction

/-- **A step that is safe met nothing of what it must not.** -/
theorem meets_of_safe {l : RecvLabel} (h : Inv s) (hstep : s.step l = some s') (hsafe : Safe s') : Meets s l := by
  cases l with
  | call => trivial
  | socket r closes => exact meets_socket h hstep hsafe
  | package a => exact meets_package h hstep hsafe
  | drop ps => trivial

/-- **Reading stays in place.**  From the start, the bytes of every package are read in its
header and body, in a live chunk between its positions, and `read ≤ write ≤ size` holds of
every chunk, for the runs whose steps meet nothing of what they must not, and only for those. -/
theorem recv_in_place_iff {ls : List RecvLabel} (hrun : Run Step {} ls s) :
    (∀ ms t, ms <+: ls → Run Step {} ms t → Safe t) ↔ Run (Guarded Meets Step) {} ls s := by
  refine Run.always_iff_guarded (fun _ _ _ _ h h' => ?_) (fun _ _ _ h hmeets hstep => h.step hmeets hstep)
    (fun _ h => h.1.safe) (fun _ _ _ h hstep hsafe => meets_of_safe h hstep hsafe) ?_ hrun
  · exact Option.some.inj (h.symm.trans h')
  · exact ⟨⟨by simp, by simp, Pool.Counts.nil _⟩, trivial⟩

/-- The end of a request, in two reads. -/
theorem recv_in_place_two_reads : ∃ s, Run Step {} [.call, .socket (.data [1, 3, 0, 1, 0, 8, 0, 0, 0, 0]) true,
    .socket (.data [0, 0, 0, 0, 0, 0]) true, .package {}, .socket .again true] s ∧ s.pc = .idle ∧ s.Safe := by
  obtain ⟨s, hs⟩ : ∃ s, [RecvLabel.call, .socket (.data [1, 3, 0, 1, 0, 8, 0, 0, 0, 0]) true,
      .socket (.data [0, 0, 0, 0, 0, 0]) true, .package {}, .socket .again true].foldlM
      (fun s l => if Meets s l then step s l else none) {} = some s ∧ s.pc = .idle := ⟨_, rfl, rfl⟩
  have hrun := Run.guarded_of_foldlM hs.1
  exact ⟨s, hrun.of_guarded, hs.2, (recv_in_place_iff hrun.of_guarded).mpr hrun _ s List.prefix_rfl hrun.of_guarded⟩

/-- An `END_REQUEST` without a body: five bytes are read behind the record, behind the
write position. -/
theorem not_recv_in_place_short_end : ∃ s, Run Step {} [.call, .socket (.data [1, 3, 0, 1, 0, 0, 0, 0]) true,
    .package {}] s ∧ ¬ s.Safe := by
  obtain ⟨s, hs, hlog⟩ : ∃ s, [RecvLabel.call, .socket (.data [1, 3, 0, 1, 0, 0, 0, 0]) true, .package {}].foldlM
      step {} = some s ∧ ∃ r ∈ s.log, r.chunk.val.write < r.pos + r.len := by
    refine ⟨_, rfl, ?_⟩
    decide +kernel
  obtain ⟨r, hr, hlt⟩ := hlog
  exact ⟨s, Run.of_foldlM hs, fun hsafe => absurd (hsafe.log r hr).written (Nat.not_le.mpr hlt)⟩

end RecvMem

end Monkey.Fastcgi
