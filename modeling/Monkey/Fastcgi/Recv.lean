import Monkey.Fastcgi.FcgiFd
import Monkey.Fastcgi.Protocol
import Monkey.Lib.Records
import Monkey.Lib.Run
import Mathlib.Data.List.GetD

/-!
# Monkey.Fastcgi.Recv

How the FastCGI plugin reads the records of a backend (`fcgi_recv_response`).

A read event calls `socket_read` until it has nothing more to give, and hands over
every record that is complete.  An unfinished record at the end of the bytes read is
moved to the front of a new chunk before the next read.  How the packages are handled
and what a state change of the connection does are parameters of this module: `τ` is
everything the handler may change.

The specification is the record format of the protocol: a receiver that keeps the
unfinished bytes and cuts the stream into its records.
-/

namespace Monkey.Fastcgi

/-- What `socket_read` returned.  `again` is `-1` with `EAGAIN`, and `error` with any other
number. -/
inductive ReadResult
  | data (bytes : Bytes)
  | again
  | eof
  | error
deriving DecidableEq, Repr

/-- The package of a record: its header and its body. -/
def package (record : Bytes) : FcgiHeader × Bytes :=
  (fcgiReadHeader record, (record.drop fcgiHeaderLen).take (fcgiReadHeader record).bodyLen.toNat)

/-! ## the code -/

section code

variable {τ : Type} (handlePkg : τ → FcgiHeader × Bytes → Bool × τ) (setClosing : τ → Option τ)

/-- The outcome of the loop over the packages. -/
structure PkgLoop (τ : Type) where
  ok : Bool
  st : τ
  pkgSize : Nat
  inherit : Nat

/-- The `while (read.len > 0)` loop, in at most as many steps as there are bytes. -/
def pkgLoop : Nat → τ → Bytes → Nat → PkgLoop τ
  | 0, st, _, pkgSize => ⟨true, st, pkgSize, 0⟩
  | fuel + 1, st, read, pkgSize =>
      if 0 < read.length then
        let h := fcgiReadHeader read
        let pkgSize := if read.length < fcgiHeaderLen then fcgiHeaderLen else h.pkgSize
        if read.length < pkgSize then ⟨true, st, pkgSize, read.length⟩
        else
          match handlePkg st (package (read.take pkgSize)) with
          | (true, st) => pkgLoop fuel st (read.drop pkgSize) pkgSize
          | (false, st) => ⟨false, st, pkgSize, 0⟩
      else ⟨true, st, pkgSize, 0⟩

/-- What a call leaves: its return value (`true` for `0`), the chunk of the
connection, and the rest. -/
structure RecvRet (τ : Type) where
  ok : Bool
  chunk : Option Chunk
  st : τ

/-- The `error` label. -/
def recvError (chunk : Option Chunk) (st : τ) : RecvRet τ := ⟨false, chunk, (setClosing st).getD st⟩

/-- The chunk to read into: a new one for an unfinished record, or when there is no
room for a header. -/
def recvChunk (chunk : Option Chunk) (pkgSize inherit : Nat) : Option (Chunk × Bool) :=
  if 0 < inherit ∨ (chunk.map chunkWriteLen).getD 0 < fcgiHeaderLen then
    (fcgiFdSetChunk chunk (chunkNew (if chunkSize < pkgSize then pkgSize else chunkSize)) inherit).map
      fun c => (c, true)
  else chunk.map fun c => (c, false)

/-- The end of an iteration: what is left to read is handled, and marked as read if it
is in the chunk of the connection. -/
def recvDone (fuel : Nat) (c : Chunk) (here : Bool) (read : Bytes) (pkgSize : Nat) (st : τ) : RecvRet τ :=
  match pkgLoop handlePkg fuel st read pkgSize with
  | ⟨true, st, _, _⟩ => ⟨true, some (if here then { c with read := c.write } else c), st⟩
  | ⟨false, st, _, _⟩ => recvError setClosing (some c) st

/-- The `do … while (!done)` loop over what `socket_read` returns; `read` is what the
read pointer has before it and `here` whether that is in the chunk of the connection.
There is no result when the results are not those of one call.

The locals of the source that outlive an iteration are arguments (`pkgSize`, `inherit`), because
they do not outlive the call, and that is what loses bytes between two calls.  The references
that keep a chunk alive are left out here and kept in `Monkey.Fastcgi.ChunkHolders`; that a
package is read in place, and not copied, is the subject of `Monkey.Fastcgi.RecvMemory`. -/
def recvLoop : List ReadResult → Option Chunk → Bytes → Bool → Nat → Nat → τ → Option (RecvRet τ)
  | [], chunk, _, _, pkgSize, inherit, st =>
      if recvChunk chunk pkgSize inherit = none then some (recvError setClosing chunk st) else none
  | r :: rs, chunk, read, here, pkgSize, inherit, st =>
      match recvChunk chunk pkgSize inherit with
      | none => none
      | some (c, new) =>
          let here := here && !new
          match r with
          | .data bytes =>
              if 0 < bytes.length ∧ bytes.length ≤ chunkWriteLen c then
                let c := { c with data := c.data ++ bytes }
                let read := chunkReadPtr c
                match pkgLoop handlePkg read.length st read pkgSize with
                | ⟨true, st, pkgSize, inherit⟩ =>
                    recvLoop rs (some { c with read := c.write }) [] true pkgSize inherit st
                | ⟨false, st, _, _⟩ => if rs = [] then some (recvError setClosing (some c) st) else none
              else none
          | .again =>
              if rs = [] then some (recvDone handlePkg setClosing read.length c here read pkgSize st) else none
          | .eof =>
              if rs = [] then
                match setClosing st with
                | some st => some (recvDone handlePkg setClosing read.length c here read pkgSize st)
                | none => some (recvError setClosing (some c) st)
              else none
          | .error => if rs = [] then some (recvError setClosing (some c) st) else none

/-- `fcgi_recv_response`. -/
def fcgiRecvResponse (rs : List ReadResult) (chunk : Option Chunk) (st : τ) : Option (RecvRet τ) :=
  recvLoop handlePkg setClosing rs chunk ((chunk.map chunkReadPtr).getD []) true 0 0 st

variable {handlePkg setClosing} {I : τ → Prop}

theorem pkgLoop_induction (hpkg : ∀ st pkg, I st → I (handlePkg st pkg).2) {fuel : Nat} {st : τ}
    {read : Bytes} {pkgSize : Nat} (hst : I st) : I (pkgLoop handlePkg fuel st read pkgSize).st := by
  induction fuel generalizing st read pkgSize with
  | zero => exact hst
  | succ fuel ih =>
      simp only [pkgLoop]
      generalize (if read.length < fcgiHeaderLen then fcgiHeaderLen
        else (fcgiReadHeader read).pkgSize) = size
      have hnext := hpkg st (package (read.take size)) hst
      split
      · split
        · exact hst
        · revert hnext
          cases handlePkg st (package (read.take size)) with
          | mk ok st' =>
              intro hnext
              cases ok with
              | true => exact ih hnext
              | false => exact hnext
      · exact hst

theorem recvError_induction (hclose : ∀ st st', I st → setClosing st = some st' → I st')
    {chunk : Option Chunk} {st : τ} (hst : I st) : I (recvError setClosing chunk st).st := by
  unfold recvError
  cases h : setClosing st with
  | none => exact hst
  | some st' => exact hclose st st' hst h

theorem recvDone_induction (hpkg : ∀ st pkg, I st → I (handlePkg st pkg).2)
    (hclose : ∀ st st', I st → setClosing st = some st' → I st') {fuel : Nat} {c : Chunk} {here : Bool}
    {read : Bytes} {pkgSize : Nat} {st : τ} (hst : I st) :
    I (recvDone handlePkg setClosing fuel c here read pkgSize st).st := by
  have hloop := @pkgLoop_induction τ handlePkg I hpkg fuel st read pkgSize hst
  unfold recvDone
  split
  · next heq => simpa [heq] using hloop
  · next heq => exact recvError_induction hclose (by simpa [heq] using hloop)

theorem recvLoop_induction (hpkg : ∀ st pkg, I st → I (handlePkg st pkg).2)
    (hclose : ∀ st st', I st → setClosing st = some st' → I st') {rs : List ReadResult}
    {chunk : Option Chunk} {read : Bytes} {here : Bool} {pkgSize inherit : Nat} {st : τ} {r : RecvRet τ}
    (hst : I st) (h : recvLoop handlePkg setClosing rs chunk read here pkgSize inherit st = some r) :
    I r.st := by
  induction rs generalizing chunk read here pkgSize inherit st with
  | nil =>
      simp only [recvLoop] at h
      split at h
      · obtain rfl := Option.some.inj h
        exact recvError_induction hclose hst
      · contradiction
  | cons result rs ih =>
      simp only [recvLoop] at h
      split at h
      · contradiction
      next c new _ =>
        split at h
        · next bytes =>
            split at h
            · have hloop := @pkgLoop_induction τ handlePkg I hpkg
                (chunkReadPtr { c with data := c.data ++ bytes }).length st
                (chunkReadPtr { c with data := c.data ++ bytes }) pkgSize hst
              split at h
              · next heq => exact ih (by simpa [heq] using hloop) h
              · next heq =>
                  split at h
                  · obtain rfl := Option.some.inj h
                    exact recvError_induction hclose (by simpa [heq] using hloop)
                  · contradiction
            · contradiction
        · split at h
          · obtain rfl := Option.some.inj h
            exact recvDone_induction hpkg hclose hst
          · contradiction
        · split at h
          · split at h
            · next st' heq =>
                obtain rfl := Option.some.inj h
                exact recvDone_induction hpkg hclose (hclose st st' hst heq)
            · obtain rfl := Option.some.inj h
              exact recvError_induction hclose hst
          · contradiction
        · split at h
          · obtain rfl := Option.some.inj h
            exact recvError_induction hclose hst
          · contradiction

/-- **What every package and every closing keeps, a call keeps.** -/
theorem fcgiRecvResponse_induction (hpkg : ∀ st pkg, I st → I (handlePkg st pkg).2)
    (hclose : ∀ st st', I st → setClosing st = some st' → I st') {rs : List ReadResult}
    {chunk : Option Chunk} {st : τ} {r : RecvRet τ} (hst : I st)
    (h : fcgiRecvResponse handlePkg setClosing rs chunk st = some r) : I r.st :=
  recvLoop_induction hpkg hclose hst h

/-- The outcome of a handler that keeps more than another one, seen by the other. -/
def RecvRet.map {υ : Type} (π : υ → τ) (r : RecvRet υ) : RecvRet τ := ⟨r.ok, r.chunk, π r.st⟩

section map

variable {υ : Type} {π : υ → τ} {handlePkg' : υ → FcgiHeader × Bytes → Bool × υ}
  {setClosing' : υ → Option υ}

theorem pkgLoop_map (hpkg : ∀ st pkg, handlePkg (π st) pkg = ((handlePkg' st pkg).1, π (handlePkg' st pkg).2))
    (fuel : Nat) (st : υ) (read : Bytes) (pkgSize : Nat) :
    pkgLoop handlePkg fuel (π st) read pkgSize =
      ⟨(pkgLoop handlePkg' fuel st read pkgSize).ok, π (pkgLoop handlePkg' fuel st read pkgSize).st,
        (pkgLoop handlePkg' fuel st read pkgSize).pkgSize,
        (pkgLoop handlePkg' fuel st read pkgSize).inherit⟩ := by
  induction fuel generalizing st read pkgSize with
  | zero => rfl
  | succ fuel ih =>
      simp only [pkgLoop, hpkg]
      generalize (if read.length < fcgiHeaderLen then fcgiHeaderLen
        else (fcgiReadHeader read).pkgSize) = size
      split
      · split
        · rfl
        · cases handlePkg' st (package (read.take size)) with
          | mk ok st' =>
              cases ok with
              | true => exact ih st' _ _
              | false => rfl
      · rfl

theorem recvError_map (hclose : ∀ st, setClosing (π st) = (setClosing' st).map π) (chunk : Option Chunk) (st : υ) :
    recvError setClosing chunk (π st) = (recvError setClosing' chunk st).map π := by
  unfold recvError RecvRet.map
  rw [hclose]
  cases setClosing' st <;> rfl

theorem recvDone_map (hpkg : ∀ st pkg, handlePkg (π st) pkg = ((handlePkg' st pkg).1, π (handlePkg' st pkg).2))
    (hclose : ∀ st, setClosing (π st) = (setClosing' st).map π) (fuel : Nat) (c : Chunk) (here : Bool)
    (read : Bytes) (pkgSize : Nat) (st : υ) :
    recvDone handlePkg setClosing fuel c here read pkgSize (π st) =
      (recvDone handlePkg' setClosing' fuel c here read pkgSize st).map π := by
  unfold recvDone
  rw [pkgLoop_map hpkg]
  cases pkgLoop handlePkg' fuel st read pkgSize with
  | mk ok st' pkgSize' inherit' =>
      cases ok with
      | true => rfl
      | false => exact recvError_map hclose _ _

theorem recvLoop_map (hpkg : ∀ st pkg, handlePkg (π st) pkg = ((handlePkg' st pkg).1, π (handlePkg' st pkg).2))
    (hclose : ∀ st, setClosing (π st) = (setClosing' st).map π) (rs : List ReadResult)
    (chunk : Option Chunk) (read : Bytes) (here : Bool) (pkgSize inherit : Nat) (st : υ) :
    recvLoop handlePkg setClosing rs chunk read here pkgSize inherit (π st) =
      (recvLoop handlePkg' setClosing' rs chunk read here pkgSize inherit st).map (RecvRet.map π) := by
  induction rs generalizing chunk read here pkgSize inherit st with
  | nil =>
      simp only [recvLoop, recvError_map hclose]
      split <;> rfl
  | cons result rs ih =>
      simp only [recvLoop]
      cases recvChunk chunk pkgSize inherit with
      | none => rfl
      | some cn =>
          cases result with
          | data bytes =>
              dsimp only
              split
              · rw [pkgLoop_map hpkg]
                cases pkgLoop handlePkg' _ st _ pkgSize with
                | mk ok st' pkgSize' inherit' =>
                    cases ok with
                    | true => exact ih _ _ _ _ _ st'
                    | false =>
                        dsimp only
                        split
                        · rw [recvError_map hclose, Option.map_some]
                        · rfl
              · rfl
          | again =>
              dsimp only
              split
              · rw [recvDone_map hpkg hclose, Option.map_some]
              · rfl
          | eof =>
              dsimp only
              rw [hclose]
              split
              · cases setClosing' st with
                | none => simp only [Option.map_none, Option.map_some, recvError_map hclose]
                | some st' => simp only [Option.map_some, recvDone_map hpkg hclose]
              · rfl
          | error =>
              dsimp only
              split
              · rw [recvError_map hclose, Option.map_some]
              · rfl

/-- **A call does the same for a handler that keeps more.** -/
theorem fcgiRecvResponse_map
    (hpkg : ∀ st pkg, handlePkg (π st) pkg = ((handlePkg' st pkg).1, π (handlePkg' st pkg).2))
    (hclose : ∀ st, setClosing (π st) = (setClosing' st).map π) (rs : List ReadResult)
    (chunk : Option Chunk) (st : υ) :
    fcgiRecvResponse handlePkg setClosing rs chunk (π st) =
      (fcgiRecvResponse handlePkg' setClosing' rs chunk st).map (RecvRet.map π) :=
  recvLoop_map hpkg hclose rs chunk _ true 0 0 st

end map

end code

/-! ## the specification -/

/-- Reading a header takes the first seven bytes. -/
theorem fcgiReadHeader_append {xs : Bytes} (ys : Bytes) (h : fcgiHeaderLen ≤ xs.length) :
    fcgiReadHeader (xs ++ ys) = fcgiReadHeader xs := by
  have hget : ∀ i < 7, (xs ++ ys).getD i 0 = xs.getD i 0 := by
    intro i hi
    exact List.getD_append _ _ _ _ (by unfold fcgiHeaderLen at h; omega)
  simp only [fcgiReadHeader, hget, Nat.reduceLT]

/-- The records of the protocol. -/
def fcgiFormat : RecordFormat UInt8 where
  head := fcgiHeaderLen
  size xs := (fcgiReadHeader xs).pkgSize
  head_pos := by decide
  head_le xs := FcgiHeader.le_pkgSize _
  size_append xs ys h := by rw [fcgiReadHeader_append ys h]

/-- The packages of a stream. -/
def packages (stream : Bytes) : List (FcgiHeader × Bytes) := (fcgiFormat.split stream).1.map package

/-- The unfinished record at the end of a stream. -/
def unfinished (stream : Bytes) : Bytes := (fcgiFormat.split stream).2

theorem packages_append (a b : Bytes) : packages (a ++ b) = packages a ++ packages (unfinished a ++ b) := by
  simp only [packages, unfinished, RecordFormat.split_append a b, List.map_append]

theorem unfinished_append (a b : Bytes) : unfinished (a ++ b) = unfinished (unfinished a ++ b) := by
  simp only [unfinished, RecordFormat.split_append a b]

theorem unfinished_not_complete (a : Bytes) : ¬ fcgiFormat.Complete (unfinished a) :=
  RecordFormat.split_rest a

theorem packages_of_not_complete {a : Bytes} (h : ¬ fcgiFormat.Complete a) : packages a = [] := by
  rw [packages, RecordFormat.split_of_not_complete h]
  rfl

theorem unfinished_of_not_complete {a : Bytes} (h : ¬ fcgiFormat.Complete a) : unfinished a = a := by
  rw [unfinished, RecordFormat.split_of_not_complete h]

/-- The bytes an event received. -/
def readBytes (rs : List ReadResult) : Bytes :=
  rs.flatMap fun r => match r with | .data bytes => bytes | _ => []

/-- The bytes of a connection written to its chunk and not read. -/
def unread (chunk : Option Chunk) : Bytes := (chunk.map chunkReadPtr).getD []

/-- The length of a record of which some bytes are known: at least a header. -/
def wantedSize (rest : Bytes) : Nat :=
  if rest.length < fcgiHeaderLen then fcgiHeaderLen else (fcgiReadHeader rest).pkgSize

/-- The new chunk for an unfinished record. -/
def pendingChunk (rest : Bytes) : Chunk :=
  { size := if chunkSize < wantedSize rest then wantedSize rest else chunkSize, data := rest }

theorem lt_wantedSize {rest : Bytes} (h : ¬ fcgiFormat.Complete rest) : rest.length < wantedSize rest := by
  unfold wantedSize
  split
  · assumption
  · next hge =>
      by_contra hle
      exact h ⟨by show fcgiHeaderLen ≤ _; omega, by show (fcgiReadHeader rest).pkgSize ≤ _; omega⟩

section spec

variable {τ : Type} (handlePkg : τ → FcgiHeader × Bytes → Bool × τ) (setClosing : τ → Option τ)

/-- Packages handled one by one, up to the first that is refused. -/
def handleAll : τ → List (FcgiHeader × Bytes) → Bool × τ
  | st, [] => (true, st)
  | st, pkg :: pkgs =>
      match handlePkg st pkg with
      | (true, st) => handleAll st pkgs
      | (false, st) => (false, st)

variable {handlePkg setClosing}

theorem handleAll_append (st : τ) (a b : List (FcgiHeader × Bytes)) :
    handleAll handlePkg st (a ++ b) =
      match handleAll handlePkg st a with
      | (true, st) => handleAll handlePkg st b
      | (false, st) => (false, st) := by
  induction a generalizing st with
  | nil => rfl
  | cons pkg a ih =>
      simp only [List.cons_append, handleAll]
      split
      · exact ih _
      · rfl

/-- **The loop over the packages** handles the complete records, and leaves the rest. -/
theorem pkgLoop_spec (read : Bytes) {fuel : Nat} (hfuel : read.length ≤ fuel) (st : τ) (pkgSize : Nat) :
    ∃ pkgSize' inherit, pkgLoop handlePkg fuel st read pkgSize =
        ⟨(handleAll handlePkg st (packages read)).1, (handleAll handlePkg st (packages read)).2,
          pkgSize', inherit⟩ ∧
      ((handleAll handlePkg st (packages read)).1 = true → inherit = (unfinished read).length ∧
        (unfinished read ≠ [] → pkgSize' = wantedSize (unfinished read))) := by
  induction read using RecordFormat.split_induction (F := fcgiFormat) generalizing fuel st pkgSize with
  | done read hc =>
      rw [packages_of_not_complete hc, unfinished_of_not_complete hc]
      cases fuel with
      | zero =>
          obtain rfl := List.eq_nil_of_length_eq_zero (by omega : read.length = 0)
          exact ⟨pkgSize, 0, rfl, fun _ => ⟨rfl, fun h => absurd rfl h⟩⟩
      | succ fuel =>
          by_cases hread : 0 < read.length
          · refine ⟨wantedSize read, read.length, ?_, fun _ => ⟨rfl, fun _ => rfl⟩⟩
            have hshort := lt_wantedSize hc
            simp only [pkgLoop]
            unfold wantedSize at hshort ⊢
            rw [if_pos hread, if_pos hshort]
            rfl
          · obtain rfl := List.eq_nil_of_length_eq_zero (by omega : read.length = 0)
            exact ⟨pkgSize, 0, rfl, fun _ => ⟨rfl, fun h => absurd rfl h⟩⟩
  | record read hc ih =>
      have hhead : fcgiHeaderLen ≤ read.length := hc.1
      have hsize : (fcgiReadHeader read).pkgSize ≤ read.length := hc.2
      have hdrop : (read.drop (fcgiReadHeader read).pkgSize).length < read.length := hc.length_drop
      have hpkgs : packages read =
          package (read.take (fcgiReadHeader read).pkgSize) ::
            packages (read.drop (fcgiReadHeader read).pkgSize) := by
        rw [packages, RecordFormat.split_of_complete hc]
        rfl
      have hrest : unfinished read = unfinished (read.drop (fcgiReadHeader read).pkgSize) := by
        rw [unfinished, RecordFormat.split_of_complete hc]
        rfl
      cases fuel with
      | zero => omega
      | succ fuel =>
          simp only [pkgLoop, hpkgs, hrest, handleAll]
          rw [if_pos (by omega), if_neg (Nat.not_lt.mpr hhead), if_neg (Nat.not_lt.mpr hsize)]
          cases hpkg : handlePkg st (package (read.take (fcgiReadHeader read).pkgSize)) with
          | mk ok st' =>
              cases ok with
              | true => exact ih (by show (read.drop (fcgiReadHeader read).pkgSize).length ≤ fuel; omega) st' _
              | false => exact ⟨_, 0, rfl, fun h => absurd h Bool.false_ne_true⟩

/-! ## one call -/

/-- The chunk a connection keeps: its positions are in order. -/
def ChunkOk (chunk : Option Chunk) : Prop := ∀ c ∈ chunk, c.read ≤ c.write

/-- A new chunk takes over the unfinished bytes. -/
theorem fcgiFdSetChunk_inherit {c : Chunk} {before rest : Bytes} {size : Nat} (hdata : c.data = before ++ rest)
    (hsize : rest.length < size) (hpos : 0 < rest.length) :
    fcgiFdSetChunk (some c) (chunkNew size) rest.length = some { size := size, data := rest } := by
  have hwrite : c.write = before.length + rest.length := by
    rw [Chunk.write, hdata, List.length_append]
  simp only [fcgiFdSetChunk]
  rw [if_pos hpos, if_pos ⟨by omega, by simpa [chunkNew, Chunk.write] using hsize⟩, hwrite,
    Nat.add_sub_cancel, hdata, List.drop_left]
  rfl

/-- The chunk holds the unfinished bytes `rest`, if there are any, and nothing else. -/
structure Holds (chunk : Option Chunk) (rest : Bytes) : Prop where
  unread : unread chunk = rest
  ok : ChunkOk chunk
  pending : rest ≠ [] → chunk = some (pendingChunk rest)

/-- The chunk of the next read holds the unfinished bytes of the one before. -/
theorem recvChunk_spec {c : Chunk} {rest : Bytes} {pkgSize : Nat} (hread : c.read = c.write)
    (hsuffix : ∃ before, c.data = before ++ rest) (hrest : ¬ fcgiFormat.Complete rest)
    (hsize : rest ≠ [] → pkgSize = wantedSize rest) :
    ∃ c' new, recvChunk (some c) pkgSize rest.length = some (c', new) ∧ Holds (some c') rest ∧
      (new = false → rest = []) := by
  by_cases hnil : rest = []
  · subst hnil
    unfold recvChunk
    split
    · -- no unfinished bytes, and no room for a header
      exact ⟨chunkNew (if chunkSize < pkgSize then pkgSize else chunkSize), true, rfl,
        ⟨rfl, by rintro _ ⟨⟩; exact le_rfl, fun h => absurd rfl h⟩, fun h => absurd h (by decide)⟩
    · refine ⟨c, false, rfl, ⟨?_, by rintro _ ⟨⟩; exact hread.le, fun h => absurd rfl h⟩, fun _ => rfl⟩
      show c.data.drop c.read = []
      rw [hread, Chunk.write, List.drop_length]
  · have hpos : 0 < rest.length := List.length_pos_iff.mpr hnil
    obtain ⟨before, hdata⟩ := hsuffix
    have hnew : rest.length < if chunkSize < pkgSize then pkgSize else chunkSize := by
      have := lt_wantedSize hrest
      rw [← hsize hnil] at this
      split <;> omega
    refine ⟨pendingChunk rest, true, ?_, ⟨rfl, by rintro _ ⟨⟩; exact Nat.zero_le _, fun _ => rfl⟩,
      fun h => absurd h (by decide)⟩
    rw [recvChunk, if_pos (.inl hpos), fcgiFdSetChunk_inherit hdata hnew hpos, hsize hnil]
    rfl

/-- What a call that started with the unfinished bytes `rest` did. -/
structure RecvOk (handlePkg : τ → FcgiHeader × Bytes → Bool × τ) (setClosing : τ → Option τ)
    (rest : Bytes) (rs : List ReadResult) (st : τ) (r : RecvRet τ) : Prop where
  state : r.st = (handleAll handlePkg st (packages (rest ++ readBytes rs))).2 ∨
    setClosing (handleAll handlePkg st (packages (rest ++ readBytes rs))).2 = some r.st
  ok : r.ok = true → (handleAll handlePkg st (packages (rest ++ readBytes rs))).1 = true
  again : r.ok = true → rs.getLast? = some .again →
    r.st = (handleAll handlePkg st (packages (rest ++ readBytes rs))).2 ∧
      Holds r.chunk (unfinished (rest ++ readBytes rs))
  last : r.ok = true → rs.getLast? = some .again ∨
    setClosing (handleAll handlePkg st (packages (rest ++ readBytes rs))).2 = some r.st
  chunk : ChunkOk r.chunk

theorem recvDone_of_not_complete {read : Bytes} (hread : ¬ fcgiFormat.Complete read) (c : Chunk) (here : Bool)
    (pkgSize : Nat) (st : τ) :
    recvDone handlePkg setClosing read.length c here read pkgSize st =
      ⟨true, some (if here then { c with read := c.write } else c), st⟩ := by
  obtain ⟨_, _, hloop, -⟩ := @pkgLoop_spec τ handlePkg read read.length le_rfl st pkgSize
  rw [recvDone, hloop, packages_of_not_complete hread]
  rfl

theorem recvError_state (chunk : Option Chunk) (st : τ) :
    (recvError setClosing chunk st).st = st ∨ setClosing st = some (recvError setClosing chunk st).st := by
  unfold recvError
  cases setClosing st with
  | none => exact .inl rfl
  | some st' => exact .inr rfl

/-- The call ended after its last read with nothing new to handle. -/
theorem RecvOk.of_done {rest : Bytes} {result : ReadResult} {st : τ} {r : RecvRet τ}
    (hrest : ¬ fcgiFormat.Complete rest) (hgot : readBytes [result] = [])
    (hstate : r.st = st ∨ setClosing st = some r.st)
    (hagain : r.ok = true → result = .again → r.st = st ∧ Holds r.chunk rest)
    (hlast : r.ok = true → result = .again ∨ setClosing st = some r.st) (hchunk : ChunkOk r.chunk) :
    RecvOk handlePkg setClosing rest [result] st r := by
  have hpkgs : packages (rest ++ readBytes [result]) = [] := by
    rw [hgot, List.append_nil, packages_of_not_complete hrest]
  refine ⟨?_, fun _ => ?_, fun hok hlast => ?_, fun hok => ?_, hchunk⟩
  · rw [hpkgs]
    exact hstate
  · rw [hpkgs]
    rfl
  · rw [hpkgs, hgot, List.append_nil, unfinished_of_not_complete hrest]
    exact hagain hok (by simpa using hlast)
  · rw [hpkgs]
    exact (hlast hok).imp (fun heq => by rw [heq]; rfl) id

/-- The call ended after its last read, which failed. -/
theorem RecvOk.of_error {rest : Bytes} {result : ReadResult} {st : τ} {c : Chunk}
    (hrest : ¬ fcgiFormat.Complete rest) (hgot : readBytes [result] = []) (hnot : result ≠ .again)
    (hpos : c.read ≤ c.write) :
    RecvOk handlePkg setClosing rest [result] st (recvError setClosing (some c) st) :=
  RecvOk.of_done hrest hgot (recvError_state _ _) (fun _ heq => absurd heq hnot)
    (fun hret => absurd hret (by simp [recvError])) (by rintro _ ⟨⟩; exact hpos)

/-- The call ended because a package was refused. -/
theorem RecvOk.of_refused {rest bytes : Bytes} {st : τ} {chunk : Option Chunk} (hchunk : ChunkOk chunk) :
    RecvOk handlePkg setClosing rest [.data bytes] st
      (recvError setClosing chunk (handleAll handlePkg st (packages (rest ++ bytes))).2) := by
  have hgot : rest ++ readBytes [.data bytes] = rest ++ bytes := by simp [readBytes]
  refine ⟨?_, fun hret => absurd hret (by simp [recvError]), fun hret => absurd hret (by simp [recvError]),
    fun hret => absurd hret (by simp [recvError]), hchunk⟩
  rw [hgot]
  exact recvError_state _ _

/-- The unfinished bytes are the last ones in the chunk. -/
theorem unfinished_suffix {c : Chunk} {rest : Bytes} (hptr : chunkReadPtr c = rest) (bytes : Bytes) :
    ∃ before, c.data ++ bytes = before ++ unfinished (rest ++ bytes) := by
  have hsplit := @RecordFormat.split_flatten _ fcgiFormat (rest ++ bytes)
  refine ⟨c.data.take c.read ++ (fcgiFormat.split (rest ++ bytes)).1.flatten, ?_⟩
  rw [List.append_assoc, unfinished, hsplit, ← hptr, chunkReadPtr, ← List.append_assoc, List.take_append_drop]

/-- The packages of a read come before those of the reads behind it. -/
theorem RecvOk.of_data {rest bytes : Bytes} {rs : List ReadResult} {st : τ} {r : RecvRet τ}
    (hok : (handleAll handlePkg st (packages (rest ++ bytes))).1 = true)
    (h : RecvOk handlePkg setClosing (unfinished (rest ++ bytes)) rs
      (handleAll handlePkg st (packages (rest ++ bytes))).2 r) (hrs : rs ≠ []) :
    RecvOk handlePkg setClosing rest (.data bytes :: rs) st r := by
  have hgot : rest ++ readBytes (.data bytes :: rs) = (rest ++ bytes) ++ readBytes rs := by
    simp [readBytes]
  have hall : handleAll handlePkg st (packages (rest ++ readBytes (.data bytes :: rs))) =
      handleAll handlePkg (handleAll handlePkg st (packages (rest ++ bytes))).2
        (packages (unfinished (rest ++ bytes) ++ readBytes rs)) := by
    rw [hgot, packages_append, handleAll_append]
    revert hok
    cases handleAll handlePkg st (packages (rest ++ bytes)) with
    | mk ok st' =>
        rintro rfl
        rfl
  have hlast : (ReadResult.data bytes :: rs).getLast? = rs.getLast? := by
    rw [List.getLast?_cons, List.getLast?_eq_some_getLast hrs]
    rfl
  refine ⟨?_, ?_, ?_, ?_, h.chunk⟩
  · rw [hall]
    exact h.state
  · rw [hall]
    exact h.ok
  · rw [hall, hlast, hgot, unfinished_append (rest ++ bytes)]
    exact h.again
  · rw [hall, hlast]
    exact h.last

/-- A read that gives no data is the last one. -/
theorem recvLoop_last {result : ReadResult} {rs : List ReadResult} (hdata : ∀ bytes, result ≠ .data bytes)
    {chunk : Option Chunk} {read rest : Bytes} {here : Bool} {pkgSize inherit : Nat} {st : τ} {r : RecvRet τ}
    (hrest : ¬ fcgiFormat.Complete rest) (hread : ¬ fcgiFormat.Complete read)
    (hchunk : ∃ c new, recvChunk chunk pkgSize inherit = some (c, new) ∧ c.read ≤ c.write ∧
      ((result :: rs).head? = some .again → if here && !new then rest = [] else Holds (some c) rest))
    (h : recvLoop handlePkg setClosing (result :: rs) chunk read here pkgSize inherit st = some r) :
    RecvOk handlePkg setClosing rest (result :: rs) st r := by
  obtain ⟨c, new, hc, hpos, hagain⟩ := hchunk
  have hdone : ChunkOk (some (if here && !new then { c with read := c.write } else c)) := by
    rintro _ ⟨⟩
    split
    · exact le_rfl
    · exact hpos
  simp only [recvLoop, hc] at h
  cases result with
  | data bytes => exact absurd rfl (hdata bytes)
  | again =>
      dsimp only at h
      split at h
      case isFalse => contradiction
      case isTrue hrs =>
        obtain rfl := Option.some.inj h
        subst hrs
        have hagain := hagain rfl
        rw [recvDone_of_not_complete hread]
        refine RecvOk.of_done hrest rfl (.inl rfl) (fun _ _ => ⟨rfl, ?_⟩) (fun _ => .inl rfl) hdone
        split at hagain
        · next hhere =>
            simp only [hhere, if_true] at hdone ⊢
            subst hagain
            exact ⟨List.drop_length, hdone, fun h => absurd rfl h⟩
        · next hhere =>
            rw [if_neg hhere]
            exact hagain
  | eof =>
      dsimp only at h
      split at h
      case isFalse => contradiction
      case isTrue hrs =>
        subst hrs
        split at h
        · next st' hst' =>
            obtain rfl := Option.some.inj h
            rw [recvDone_of_not_complete hread]
            exact RecvOk.of_done hrest rfl (.inr hst') (fun _ heq => by contradiction) (fun _ => .inr hst') hdone
        · obtain rfl := Option.some.inj h
          exact RecvOk.of_error hrest rfl (by decide) hpos
  | error =>
      dsimp only at h
      split at h
      case isFalse => contradiction
      case isTrue hrs =>
        subst hrs
        obtain rfl := Option.some.inj h
        exact RecvOk.of_error hrest rfl (by decide) hpos

/-- **One call of `fcgi_recv_response`**, from the point where the chunk to read into
holds the unfinished bytes, or loses them because nothing is read. -/
theorem recvLoop_spec (rs : List ReadResult) {chunk : Option Chunk} {read rest : Bytes} {here : Bool}
    {pkgSize inherit : Nat} {st : τ} {r : RecvRet τ}
    (hrest : ¬ fcgiFormat.Complete rest) (hread : ¬ fcgiFormat.Complete read)
    (hchunk : ∃ c new, recvChunk chunk pkgSize inherit = some (c, new) ∧ c.read ≤ c.write ∧
      (∀ bytes, rs.head? = some (.data bytes) → chunkReadPtr c = rest) ∧
      (rs.head? = some .again → if here && !new then rest = [] else Holds (some c) rest))
    (h : recvLoop handlePkg setClosing rs chunk read here pkgSize inherit st = some r) :
    RecvOk handlePkg setClosing rest rs st r := by
  induction rs generalizing chunk read rest here pkgSize inherit st with
  | nil =>
      obtain ⟨c, new, hc, -⟩ := hchunk
      simp only [recvLoop, hc] at h
      simp at h
  | cons result rs ih =>
      obtain ⟨c, new, hc, hpos, hptr, hagain⟩ := hchunk
      cases result with
      | data bytes =>
          simp only [recvLoop, hc] at h
          have hptr := hptr bytes rfl
          have hread : chunkReadPtr { c with data := c.data ++ bytes } = rest ++ bytes := by
            rw [← hptr]
            exact List.drop_append_of_le_length hpos
          obtain ⟨pkgSize', inherit', hloop, hleft⟩ :=
            @pkgLoop_spec τ handlePkg (rest ++ bytes) (rest ++ bytes).length le_rfl st pkgSize
          simp only [hread, hloop] at h
          split at h
          case isFalse => contradiction
          case isTrue =>
            cases hok : (handleAll handlePkg st (packages (rest ++ bytes))).1 with
            | false =>
                simp only [hok] at h
                split at h
                case isFalse => contradiction
                case isTrue hrs =>
                  obtain rfl := Option.some.inj h
                  subst hrs
                  refine RecvOk.of_refused ?_
                  rintro _ ⟨⟩
                  show c.read ≤ (c.data ++ bytes).length
                  rw [List.length_append]
                  exact hpos.trans (Nat.le_add_right _ _)
            | true =>
                simp only [hok] at h
                obtain ⟨hinherit, hsize⟩ := hleft hok
                obtain ⟨c', new', hc', hholds, hnew'⟩ :=
                  @recvChunk_spec
                    { c with data := c.data ++ bytes, read := Chunk.write { c with data := c.data ++ bytes } }
                    (unfinished (rest ++ bytes)) pkgSize' rfl (unfinished_suffix hptr bytes)
                    (unfinished_not_complete _) hsize
                rw [hinherit] at h
                have hrs : rs ≠ [] := by
                  rintro rfl
                  simp only [recvLoop] at h
                  rw [if_neg (by rw [hc']; exact Option.some_ne_none _)] at h
                  contradiction
                refine RecvOk.of_data hok (ih (unfinished_not_complete _) RecordFormat.not_complete_nil ?_ h) hrs
                refine ⟨c', new', hc', hholds.ok c' rfl, fun _ _ => hholds.unread, fun _ => ?_⟩
                split
                · next hhere => exact hnew' (by simpa using hhere)
                · exact hholds
      | again => exact recvLoop_last (fun bytes => by simp) hrest hread ⟨c, new, hc, hpos, hagain⟩ h
      | eof => exact recvLoop_last (fun bytes => by simp) hrest hread ⟨c, new, hc, hpos, hagain⟩ h
      | error => exact recvLoop_last (fun bytes => by simp) hrest hread ⟨c, new, hc, hpos, hagain⟩ h

/-- The first read keeps unfinished bytes: it gives data to a chunk with room for a
header, or ends the connection. -/
def firstReadKeeps (chunk : Option Chunk) : Option ReadResult → Bool
  | some .again => false
  | some (.data _) => fcgiHeaderLen ≤ (chunk.map chunkWriteLen).getD 0
  | _ => true

/-- The event keeps the unfinished bytes, if there are any. -/
def ReadOk (chunk : Option Chunk) (rs : List ReadResult) : Prop :=
  unread chunk = [] ∨ firstReadKeeps chunk rs.head? = true

instance (chunk : Option Chunk) (rs : List ReadResult) : Decidable (ReadOk chunk rs) :=
  inferInstanceAs (Decidable (_ ∨ _))

/-- **One call of `fcgi_recv_response`**: it goes on with the unfinished bytes, or has
lost them when the first read does not keep them. -/
theorem fcgiRecvResponse_spec {rs : List ReadResult} {chunk : Option Chunk} {st : τ} {r : RecvRet τ}
    (hchunk : ChunkOk chunk) (hrest : ¬ fcgiFormat.Complete (unread chunk))
    (h : fcgiRecvResponse handlePkg setClosing rs chunk st = some r) :
    RecvOk handlePkg setClosing (if firstReadKeeps chunk rs.head? then unread chunk else []) rs st r := by
  have hkept : ¬ fcgiFormat.Complete (if firstReadKeeps chunk rs.head? then unread chunk else []) := by
    split
    · exact hrest
    · exact RecordFormat.not_complete_nil
  refine recvLoop_spec rs hkept hrest ?_ h
  by_cases hroom : (chunk.map chunkWriteLen).getD 0 < fcgiHeaderLen
  · refine ⟨chunkNew chunkSize, true, ?_, le_rfl, fun bytes hd => ?_, fun ha => ?_⟩
    · rw [recvChunk, if_pos (.inr hroom), if_neg (by decide)]
      cases chunk <;> rfl
    · rw [hd, if_neg (by simpa [firstReadKeeps] using hroom)]
      rfl
    · rw [ha]
      exact ⟨rfl, by rintro _ ⟨⟩; exact le_rfl, fun h => absurd rfl h⟩
  · obtain ⟨c, rfl⟩ : ∃ c, chunk = some c := by
      refine Option.ne_none_iff_exists'.mp ?_
      rintro rfl
      exact hroom (by decide)
    refine ⟨c, false, ?_, hchunk c rfl, fun bytes hd => ?_, fun ha => ?_⟩
    · rw [recvChunk, if_neg (by simpa using hroom)]
      rfl
    · rw [hd, if_pos (by simpa [firstReadKeeps] using hroom)]
      rfl
    · rw [ha]
      rfl

/-- The same for a call that keeps the unfinished bytes. -/
theorem fcgiRecvResponse_spec_of_readOk {rs : List ReadResult} {chunk : Option Chunk} {st : τ} {r : RecvRet τ}
    (hchunk : ChunkOk chunk) (hrest : ¬ fcgiFormat.Complete (unread chunk)) (hok : ReadOk chunk rs)
    (h : fcgiRecvResponse handlePkg setClosing rs chunk st = some r) :
    RecvOk handlePkg setClosing (unread chunk) rs st r := by
  have hspec := fcgiRecvResponse_spec hchunk hrest h
  obtain hnil | hkeeps := hok
  · rw [hnil, ite_self] at hspec
    rwa [hnil]
  · rwa [if_pos hkeeps] at hspec

end spec

/-! ## one connection -/

section connection

variable {τ : Type} (handlePkg : τ → FcgiHeader × Bytes → Bool × τ) (setClosing : τ → Option τ)

/-- The packages handed over, with the answers of the handler. -/
abbrev PkgLog := List ((FcgiHeader × Bytes) × Bool)

/-- The handler with a log of its packages. -/
def logged (st : τ × PkgLog) (pkg : FcgiHeader × Bytes) : Bool × τ × PkgLog :=
  match handlePkg st.1 pkg with
  | (ok, st') => (ok, st', st.2 ++ [(pkg, ok)])

/-- A connection from its start: its chunk, the rest, the packages handed over, the
bytes received, and whether it is still read from.  The log of packages and the bytes received
are not in the source: they are the two sides of what is promised. -/
structure Conn (τ : Type) where
  chunk : Option Chunk
  st : τ
  log : PkgLog := []
  received : Bytes := []
  isOpen : Bool := true

/-- A read event.  The connection is closed when the call fails or its end was read. -/
def Conn.read (conn : Conn τ) (rs : List ReadResult) : Option (Conn τ) :=
  if conn.isOpen then
    (fcgiRecvResponse (logged handlePkg) (fun st => (setClosing st.1).map (·, st.2)) rs conn.chunk
      (conn.st, conn.log)).map fun r =>
        { chunk := r.chunk, st := r.st.1, log := r.st.2, received := conn.received ++ readBytes rs,
          isOpen := r.ok && rs.getLast? == some .again }
  else none

/-- The packages handed over are those of the bytes received, in order, all of them
unless one was refused. -/
def Conn.Parsed (conn : Conn τ) : Prop :=
  conn.log.map (·.1) <+: packages conn.received ∧
    ((∀ e ∈ conn.log, e.2 = true) → conn.log.map (·.1) = packages conn.received)

variable {handlePkg setClosing}

/-- What handling packages adds to the log. -/
theorem handleAll_logged (st : τ) (log : PkgLog) (pkgs : List (FcgiHeader × Bytes)) :
    ∃ new, (handleAll (logged handlePkg) (st, log) pkgs).2.2 = log ++ new ∧ new.map (·.1) <+: pkgs ∧
      ((handleAll (logged handlePkg) (st, log) pkgs).1 = true →
        new.map (·.1) = pkgs ∧ ∀ e ∈ new, e.2 = true) ∧
      ((handleAll (logged handlePkg) (st, log) pkgs).1 = false → ∃ e ∈ new, e.2 = false) := by
  induction pkgs generalizing st log with
  | nil => exact ⟨[], by simp [handleAll], List.prefix_rfl, fun _ => ⟨rfl, by simp⟩, by simp [handleAll]⟩
  | cons pkg pkgs ih =>
      simp only [handleAll, logged]
      cases handlePkg st pkg with
      | mk ok st' =>
          cases ok with
          | false =>
              exact ⟨[(pkg, false)], rfl, by simp, by simp, by simp⟩
          | true =>
              obtain ⟨new, hlog, hprefix, hall, hrefused⟩ := ih st' (log ++ [(pkg, true)])
              refine ⟨(pkg, true) :: new, ?_, ?_, ?_, ?_⟩
              · simpa using hlog
              · simpa using hprefix
              · intro h
                obtain ⟨rfl, htrue⟩ := hall h
                simpa using htrue
              · intro h
                obtain ⟨e, he, hfalse⟩ := hrefused h
                exact ⟨e, List.mem_cons_of_mem _ he, hfalse⟩

/-- What is known of a connection: while it is open everything received was handled,
up to an unfinished record that the chunk holds. -/
structure ConnOk (conn : Conn τ) : Prop where
  parsed : conn.Parsed
  accepted : conn.isOpen = true → ∀ e ∈ conn.log, e.2 = true
  rest : conn.isOpen = true → unread conn.chunk = unfinished conn.received
  chunk : conn.isOpen = true → ChunkOk conn.chunk

/-- **A read event that keeps the unfinished bytes keeps what is known.** -/
theorem ConnOk.read {conn conn' : Conn τ} {rs : List ReadResult} (h : ConnOk conn)
    (hok : ReadOk conn.chunk rs) (hstep : conn.read handlePkg setClosing rs = some conn') : ConnOk conn' := by
  unfold Conn.read at hstep
  split at hstep
  case isFalse => contradiction
  case isTrue hopen =>
    obtain ⟨r, hr, rfl⟩ := Option.map_eq_some_iff.mp hstep
    have hrest := h.rest hopen
    have hspec := fcgiRecvResponse_spec_of_readOk (h.chunk hopen) (hrest ▸ unfinished_not_complete _) hok hr
    obtain ⟨new, hnew, hprefix, hall, hrefused⟩ :=
      handleAll_logged conn.st conn.log (packages (unread conn.chunk ++ readBytes rs))
    have hreceived : packages (conn.received ++ readBytes rs) =
        packages conn.received ++ packages (unread conn.chunk ++ readBytes rs) := by
      rw [packages_append, ← hrest]
    have hleft : unfinished (conn.received ++ readBytes rs) = unfinished (unread conn.chunk ++ readBytes rs) := by
      rw [unfinished_append, ← hrest]
    have hlog : r.st.2 = conn.log ++ new := by
      obtain hst | hst := hspec.state
      · rw [hst, hnew]
      · obtain ⟨st, -, hst⟩ := Option.map_eq_some_iff.mp hst
        rw [← hst, hnew]
    have hbefore : conn.log.map (·.1) = packages conn.received := h.parsed.2 (h.accepted hopen)
    refine ⟨⟨?_, ?_⟩, ?_, ?_, ?_⟩
    · rw [hlog, List.map_append, hbefore, hreceived, List.prefix_append_right_inj]
      exact hprefix
    · intro haccepted
      rw [hlog] at haccepted
      rw [hlog, List.map_append, hbefore, hreceived]
      cases hret : (handleAll (logged handlePkg) (conn.st, conn.log)
          (packages (unread conn.chunk ++ readBytes rs))).1 with
      | true => rw [(hall hret).1]
      | false =>
          obtain ⟨e, he, hfalse⟩ := hrefused hret
          exact absurd (haccepted e (List.mem_append_right _ he)) (by simp [hfalse])
    · intro hstill
      have hret := hspec.ok (Bool.and_eq_true_iff.mp hstill).1
      rw [hlog]
      intro e he
      obtain he | he := List.mem_append.mp he
      · exact h.accepted hopen e he
      · exact (hall hret).2 e he
    · intro hstill
      obtain ⟨hret, hlast⟩ := Bool.and_eq_true_iff.mp hstill
      exact (hspec.again hret (by simpa using hlast)).2.unread.trans hleft.symm
    · intro hstill
      exact hspec.chunk

/-- A connection starts with nothing unread. -/
theorem ConnOk.start {chunk : Option Chunk} (hchunk : ChunkOk chunk) (hunread : unread chunk = []) (st : τ) :
    ConnOk { chunk := chunk, st := st } :=
  ⟨⟨List.nil_prefix, fun _ => rfl⟩, by simp, fun _ => hunread, fun _ => hchunk⟩

/-- **Packages of a connection.**  Over any number of read events that keep the
unfinished bytes, the packages handed over are the records of the bytes received,
however they were cut. -/
theorem parsed_of_readOk {chunk : Option Chunk} {st : τ} {events : List (List ReadResult)} {conn : Conn τ}
    (hchunk : ChunkOk chunk) (hunread : unread chunk = [])
    (hrun : Run (Guarded (fun conn rs => ReadOk conn.chunk rs)
      fun conn rs conn' => conn.read handlePkg setClosing rs = some conn')
      { chunk := chunk, st := st } events conn) : conn.Parsed :=
  (hrun.guarded_invariant (fun _ _ _ h hok hstep => h.read hok hstep)
    (ConnOk.start hchunk hunread st)).parsed

end connection

/-- A record read in two events is one package. -/
theorem parsed_record_in_two_events : ∃ conn : Conn Unit,
    Run (Guarded (fun conn rs => ReadOk conn.chunk rs)
      fun conn rs conn' => conn.read (fun _ _ => (true, ())) some rs = some conn')
      { chunk := none, st := () }
      [[.data [1, 6, 0, 1, 0], .again], [.data [1, 0, 0, 65], .again]] conn ∧
    conn.Parsed ∧ conn.log.length = 1 := by
  have hrun := @Run.guarded_of_foldlM (Conn Unit) (List ReadResult) { chunk := none, st := () }
    { chunk := some { size := chunkSize, data := [1, 6, 0, 1, 0, 1, 0, 0, 65], read := 9 }, st := ()
      log := [(({ type := 6, reqId := 1, bodyLen := 1 }, [65]), true)]
      received := [1, 6, 0, 1, 0, 1, 0, 0, 65] }
    [[.data [1, 6, 0, 1, 0], .again], [.data [1, 0, 0, 65], .again]]
    (fun conn rs => conn.read (fun _ _ => (true, ())) some rs) (fun conn rs => ReadOk conn.chunk rs) _ rfl
  exact ⟨_, hrun, parsed_of_readOk (by simp [ChunkOk]) rfl hrun, rfl⟩

/-- A read event with nothing to read loses the five bytes read before: the package of
the record is never handed over. -/
theorem not_parsed_after_again : ∃ conn : Conn Unit,
    Run (fun conn rs conn' => conn.read (fun _ _ => (true, ())) some rs = some conn')
      { chunk := none, st := () }
      [[.data [1, 6, 0, 1, 0], .again], [.again], [.data [1, 0, 0, 65], .again]] conn ∧
    ¬ conn.Parsed := by
  have hrun := @Run.of_foldlM (Conn Unit) (List ReadResult) { chunk := none, st := () }
    { chunk := some { size := chunkSize, data := [1, 0, 0, 65] }, st := ()
      received := [1, 6, 0, 1, 0, 1, 0, 0, 65] }
    [[.data [1, 6, 0, 1, 0], .again], [.again], [.data [1, 0, 0, 65], .again]]
    (fun conn rs => conn.read (fun _ _ => (true, ())) some rs) rfl
  exact ⟨_, hrun, fun h => absurd (h.2 (by simp)) (by decide)⟩

end Monkey.Fastcgi
