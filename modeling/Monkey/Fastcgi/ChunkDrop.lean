import Monkey.Fastcgi.Prepare
import Monkey.Fastcgi.Handlers

/-!
# Monkey.Fastcgi.ChunkDrop

An output vector sent in parts (`chunk_iov_drop`, `_mkp_event_write`).

The entries are the whole array of the vector: those from `index` on were never set, or
are left over from an earlier request.  The loop of `chunk_iov_drop` runs over all of
them, so what stops it is that the bytes are used up.
-/

namespace Monkey.Fastcgi

/-! ## the array -/

/-- `struct iovec`; `NULL` is address 0. -/
structure Iovec where
  iovBase : Nat
  iovLen : Nat
deriving DecidableEq, Repr

/-- The bytes an entry points to. -/
def Iovec.bytes (mem : Nat → UInt8) (io : Iovec) : Bytes := peek mem io.iovBase io.iovLen

@[simp]
theorem Iovec.length_bytes (mem : Nat → UInt8) (io : Iovec) : (io.bytes mem).length = io.iovLen :=
  length_peek ..

/-- How many bytes some entries have. -/
def entriesLength (io : List Iovec) : Nat := (io.map (·.iovLen)).sum

/-- `struct chunk_iov`: an array of `size` entries of which `index` are in use.  What the
entries in use point to is in memory, so their length is a `size_t`. -/
structure IovArray where
  io : List Iovec
  index : Nat
  index_le : index ≤ io.length
  fits : entriesLength (io.take index) < 2 ^ 64

namespace IovArray

/-- `iov->size`. -/
def size (iov : IovArray) : Nat := iov.io.length

/-- The entries in use. -/
def held (iov : IovArray) : List Iovec := iov.io.take iov.index

/-- All the bytes of the entries in use, in order. -/
def bytes (mem : Nat → UInt8) (iov : IovArray) : Bytes := (iov.held.map (Iovec.bytes mem)).flatten

/-- What the array stands for. -/
def toChunkIov (mem : Nat → UInt8) (iov : IovArray) : ChunkIov :=
  { io := iov.held.map (Iovec.bytes mem), size := iov.size }

end IovArray

/-! ## the operations -/

/-- The loop of `chunk_iov_drop`. -/
def dropLoop : List Iovec → Nat → List Iovec
  | [], _ => []
  | io :: rest, bytes =>
      if bytes = 0 then io :: rest
      else if io.iovLen < bytes then ⟨0, 0⟩ :: dropLoop rest (bytes - io.iovLen)
      else ⟨io.iovBase + bytes, io.iovLen - bytes⟩ :: dropLoop rest 0

theorem dropLoop_zero (io : List Iovec) : dropLoop io 0 = io := by
  cases io with
  | nil => rfl
  | cons io rest => rw [dropLoop, if_pos rfl]

theorem length_dropLoop (io : List Iovec) (bytes : Nat) : (dropLoop io bytes).length = io.length := by
  fun_induction dropLoop io bytes with
  | case1 => rfl
  | case2 => rfl
  | case3 io rest bytes h0 hlt ih => rw [List.length_cons, List.length_cons, ih]
  | case4 io rest bytes h0 hge ih => rw [List.length_cons, List.length_cons, ih]

/-- The loop is done with the entries that have the bytes, and leaves those behind them. -/
theorem dropLoop_append (io rest : List Iovec) {bytes : Nat} (h : bytes ≤ entriesLength io) :
    dropLoop (io ++ rest) bytes = dropLoop io bytes ++ rest := by
  fun_induction dropLoop io bytes with
  | case1 bytes =>
      obtain rfl : bytes = 0 := by simpa [entriesLength] using h
      exact dropLoop_zero rest
  | case2 io more => exact dropLoop_zero _
  | case3 io more bytes h0 hlt ih =>
      have hmore : bytes - io.iovLen ≤ entriesLength more := by
        simp only [entriesLength, List.map_cons, List.sum_cons] at h ⊢
        omega
      rw [List.cons_append, dropLoop, if_neg h0, if_pos hlt, ih hmore, List.cons_append]
  | case4 io more bytes h0 hge ih =>
      rw [List.cons_append, dropLoop, if_neg h0, if_neg hge, dropLoop_zero, dropLoop_zero, List.cons_append]

/-- The loop drops from the bytes what `chunkIovDrop` drops. -/
theorem map_bytes_dropLoop (mem : Nat → UInt8) (io : List Iovec) (bytes : Nat) :
    (dropLoop io bytes).map (Iovec.bytes mem) = dropEntries (io.map (Iovec.bytes mem)) bytes := by
  fun_induction dropLoop io bytes with
  | case1 => rfl
  | case2 io rest => rw [List.map_cons, dropEntries, if_pos rfl]
  | case3 io rest bytes h0 hlt ih =>
      have hshort : (io.bytes mem).length < bytes := by rwa [Iovec.length_bytes]
      rw [List.map_cons, ih, List.map_cons, dropEntries, if_neg h0, if_pos hshort, Iovec.length_bytes]
      rfl
  | case4 io rest bytes h0 hge ih =>
      have hlong : ¬ (io.bytes mem).length < bytes := by rwa [Iovec.length_bytes]
      have hdrop : (io.bytes mem).drop bytes = peek mem (io.iovBase + bytes) (io.iovLen - bytes) := by
        obtain ⟨more, hmore⟩ := Nat.exists_eq_add_of_le (Nat.le_of_not_lt hge)
        rw [Iovec.bytes, hmore, peek_add, List.drop_left' (length_peek ..), Nat.add_sub_cancel_left]
      rw [List.map_cons, dropLoop_zero, List.map_cons, dropEntries, if_neg h0, if_neg hlong, hdrop, Iovec.bytes]

theorem entriesLength_eq (mem : Nat → UInt8) (io : List Iovec) :
    entriesLength io = (io.map (Iovec.bytes mem)).flatten.length := by
  induction io with
  | nil => rfl
  | cons e io ih =>
      rw [List.map_cons, List.flatten_cons, List.length_append, ← ih, Iovec.length_bytes]
      rfl

theorem entriesLength_dropLoop (io : List Iovec) (bytes : Nat) :
    entriesLength (dropLoop io bytes) = entriesLength io - bytes := by
  rw [entriesLength_eq (fun _ => 0), map_bytes_dropLoop, flatten_dropEntries, List.length_drop,
    ← entriesLength_eq]

namespace IovArray

/-- `chunk_iov_length`. -/
def chunkIovLength (iov : IovArray) : Nat := entriesLength iov.held

/-- `chunk_iov_sendv`: what the kernel answers, and what it takes; nothing is sent of an
empty vector. -/
def chunkIovSendv (mem : Nat → UInt8) (iov : IovArray) (res : SendResult) : Option (SendResult × Bytes) :=
  if 0 < iov.index then
    match res with
    | .wrote n =>
        if n ≤ iov.chunkIovLength ∧ (0 < n ∨ iov.chunkIovLength = 0) then
          some (.wrote n, (iov.bytes mem).take n)
        else none
    | res => some (res, [])
  else some (.wrote 0, [])

theorem io_eq (iov : IovArray) : iov.io = iov.held ++ iov.io.drop iov.index :=
  (List.take_append_drop ..).symm

theorem length_held (iov : IovArray) : iov.held.length = iov.index :=
  List.length_take_of_le iov.index_le

/-- The array after the loop, as long as the entries in use have the bytes. -/
theorem dropLoop_io (iov : IovArray) {bytes : Nat} (h : bytes ≤ iov.chunkIovLength) :
    dropLoop iov.io bytes = dropLoop iov.held bytes ++ iov.io.drop iov.index := by
  conv_lhs => rw [iov.io_eq]
  exact dropLoop_append _ _ h

theorem take_dropLoop_io (iov : IovArray) {bytes : Nat} (h : bytes ≤ iov.chunkIovLength) :
    (dropLoop iov.io bytes).take iov.index = dropLoop iov.held bytes := by
  rw [iov.dropLoop_io h, List.take_left' ((length_dropLoop ..).trans iov.length_held)]

/-- `chunk_iov_drop`: what it returns, and the vector it leaves. -/
def chunkIovDrop (iov : IovArray) (bytes : Nat) : Int × IovArray :=
  if h : 0 < bytes ∧ bytes ≤ iov.chunkIovLength then
    (0, { io := dropLoop iov.io bytes
          index := iov.index
          index_le := (length_dropLoop ..).symm ▸ iov.index_le
          fits := by
            rw [iov.take_dropLoop_io h.2, entriesLength_dropLoop]
            exact Nat.lt_of_le_of_lt (Nat.sub_le ..) iov.fits })
  else (-1, iov)

/-- `chunk_iov_reset`, without the references. -/
def chunkIovReset (iov : IovArray) : IovArray :=
  { io := iov.io, index := 0, index_le := Nat.zero_le _, fits := Nat.two_pow_pos 64 }

theorem length_bytes (mem : Nat → UInt8) (iov : IovArray) : (iov.bytes mem).length = iov.chunkIovLength :=
  (entriesLength_eq mem iov.held).symm

theorem chunkIovDrop_of_le {iov : IovArray} {bytes : Nat} (h0 : 0 < bytes) (hle : bytes ≤ iov.chunkIovLength) :
    (iov.chunkIovDrop bytes).1 = 0 ∧ (iov.chunkIovDrop bytes).2.io = dropLoop iov.io bytes ∧
      (iov.chunkIovDrop bytes).2.index = iov.index := by
  rw [chunkIovDrop, dif_pos ⟨h0, hle⟩]
  exact ⟨rfl, rfl, rfl⟩

/-- Nothing changes when nothing, or more than there is, is to be dropped. -/
theorem chunkIovDrop_refused {iov : IovArray} {bytes : Nat} (h : bytes = 0 ∨ iov.chunkIovLength < bytes) :
    iov.chunkIovDrop bytes = (-1, iov) := by
  rw [chunkIovDrop, dif_neg (by omega)]

theorem held_chunkIovDrop {iov : IovArray} {bytes : Nat} (h0 : 0 < bytes) (hle : bytes ≤ iov.chunkIovLength) :
    (iov.chunkIovDrop bytes).2.held = dropLoop iov.held bytes := by
  obtain ⟨-, hio, hindex⟩ := chunkIovDrop_of_le h0 hle
  rw [held, hio, hindex, iov.take_dropLoop_io hle]

/-- The entries that are not in use stay as they are. -/
theorem drop_chunkIovDrop {iov : IovArray} {bytes : Nat} (h0 : 0 < bytes) (hle : bytes ≤ iov.chunkIovLength) :
    (iov.chunkIovDrop bytes).2.io.drop iov.index = iov.io.drop iov.index := by
  obtain ⟨-, hio, -⟩ := chunkIovDrop_of_le h0 hle
  rw [hio, iov.dropLoop_io hle, List.drop_left' ((length_dropLoop ..).trans iov.length_held)]

/-- **Refinement**: on the array `chunk_iov_drop` does what it does on the vector. -/
theorem toChunkIov_chunkIovDrop (mem : Nat → UInt8) {iov : IovArray} {bytes : Nat} (h0 : 0 < bytes)
    (hle : bytes ≤ iov.chunkIovLength) :
    Fastcgi.chunkIovDrop (iov.toChunkIov mem) bytes = some ((iov.chunkIovDrop bytes).2.toChunkIov mem) := by
  have hlen : Fastcgi.chunkIovLength (iov.toChunkIov mem) = iov.chunkIovLength := by
    rw [chunkIovLength_eq]
    exact iov.length_bytes mem
  have hsize : (iov.chunkIovDrop bytes).2.size = iov.size := by
    rw [size, (chunkIovDrop_of_le h0 hle).2.1, length_dropLoop, size]
  rw [Fastcgi.chunkIovDrop, if_pos ⟨h0, hlen.symm ▸ hle⟩, toChunkIov, toChunkIov, held_chunkIovDrop h0 hle,
    map_bytes_dropLoop, hsize]

theorem bytes_chunkIovDrop (mem : Nat → UInt8) {iov : IovArray} {bytes : Nat} (h0 : 0 < bytes)
    (hle : bytes ≤ iov.chunkIovLength) :
    (iov.chunkIovDrop bytes).2.bytes mem = (iov.bytes mem).drop bytes :=
  (chunkIovDrop_eq_some (toChunkIov_chunkIovDrop mem h0 hle)).1

end IovArray

/-! ## sending in parts -/

namespace IovArray

/-- One write that takes `r` bytes, and `chunk_iov_drop` after it: what is sent, and
the vector. -/
def sendPart (mem : Nat → UInt8) (iov : IovArray) (r : Nat) : Option (Bytes × IovArray) :=
  match iov.chunkIovSendv mem (.wrote r) with
  | some (.wrote n, sent) => some (sent, (iov.chunkIovDrop n).2)
  | _ => none

/-- Writes that take so many bytes each. -/
def sendParts (mem : Nat → UInt8) : IovArray → List Nat → Option (Bytes × IovArray)
  | iov, [] => some ([], iov)
  | iov, r :: rs =>
      (iov.sendPart mem r).bind fun (sent, iov) =>
        (sendParts mem iov rs).map fun (more, iov) => (sent ++ more, iov)

theorem index_pos {iov : IovArray} (h : 0 < iov.chunkIovLength) : 0 < iov.index := by
  rw [Nat.pos_iff_ne_zero]
  intro h0
  rw [chunkIovLength, held, h0] at h
  contradiction

theorem sendPart_eq (mem : Nat → UInt8) {iov : IovArray} {r : Nat} (h0 : 0 < r) (hle : r ≤ iov.chunkIovLength) :
    iov.sendPart mem r = some ((iov.bytes mem).take r, (iov.chunkIovDrop r).2) := by
  have hsend : iov.chunkIovSendv mem (.wrote r) = some (.wrote r, (iov.bytes mem).take r) := by
    rw [chunkIovSendv, if_pos (index_pos (Nat.lt_of_lt_of_le h0 hle))]
    exact if_pos ⟨hle, .inl h0⟩
  rw [sendPart, hsend]

/-- What is left of a vector `iov` of which `k` bytes were dropped. -/
structure Left (mem : Nat → UInt8) (iov : IovArray) (k : Nat) (iov' : IovArray) : Prop where
  bytes : iov'.bytes mem = (iov.bytes mem).drop k
  length : iov'.chunkIovLength = iov.chunkIovLength - k
  index : iov'.index = iov.index
  size : iov'.size = iov.size
  unused : iov'.io.drop iov.index = iov.io.drop iov.index

theorem Left.refl (mem : Nat → UInt8) (iov : IovArray) : Left mem iov 0 iov :=
  ⟨rfl, rfl, rfl, rfl, rfl⟩

/-- One more drop. -/
theorem Left.drop {mem : Nat → UInt8} {iov iov' : IovArray} {k r : Nat} (h : Left mem iov k iov') (h0 : 0 < r)
    (hle : r ≤ iov'.chunkIovLength) : Left mem iov (k + r) (iov'.chunkIovDrop r).2 := by
  have hbytes : (iov'.chunkIovDrop r).2.bytes mem = (iov.bytes mem).drop (k + r) := by
    rw [bytes_chunkIovDrop mem h0 hle, h.bytes, List.drop_drop]
  obtain ⟨-, hio, hindex⟩ := chunkIovDrop_of_le h0 hle
  have hsize : (iov'.chunkIovDrop r).2.size = iov'.size := by rw [IovArray.size, hio, length_dropLoop, IovArray.size]
  refine ⟨hbytes, ?_, hindex.trans h.index, hsize.trans h.size, ?_⟩
  · rw [← length_bytes mem, hbytes, List.length_drop, length_bytes]
  · rw [← h.unused, ← h.index]
    exact drop_chunkIovDrop h0 hle

/-- Any schedule of writes sends the bytes in order, whatever was sent before. -/
theorem sendParts_of_left {mem : Nat → UInt8} {iov : IovArray} {rs : List Nat} (hpos : ∀ r ∈ rs, 0 < r) :
    ∀ {k : Nat} {iov' : IovArray}, Left mem iov k iov' → rs.sum ≤ iov'.chunkIovLength →
      ∃ last, iov'.sendParts mem rs = some ((iov'.bytes mem).take rs.sum, last) ∧ Left mem iov (k + rs.sum) last := by
  induction rs with
  | nil =>
      intro k iov' hleft _
      exact ⟨iov', rfl, hleft⟩
  | cons r rs ih =>
      intro k iov' hleft hsum
      rw [List.sum_cons] at hsum ⊢
      have h0 : 0 < r := hpos r List.mem_cons_self
      have hle : r ≤ iov'.chunkIovLength := by omega
      have hpart := (Left.refl mem iov').drop h0 hle
      have hrest : rs.sum ≤ (iov'.chunkIovDrop r).2.chunkIovLength := by rw [hpart.length]; omega
      obtain ⟨last, hmore, hlast⟩ := ih (fun r hr => hpos r (List.mem_cons_of_mem _ hr)) (hleft.drop h0 hle) hrest
      refine ⟨last, ?_, by rwa [← Nat.add_assoc]⟩
      rw [sendParts, sendPart_eq mem h0 hle]
      simp only [Option.bind_some, hmore, Option.map_some]
      rw [bytes_chunkIovDrop mem h0 hle, List.take_add]

end IovArray

/-! ## write events -/

/-- What a connection sends: its state, `begin_req_remain`, and the vector that `begin_req`
points to, which it does while `attached`. -/
structure Sending where
  state : FcgiFdState
  beginReqRemain : Nat
  iov : IovArray
  attached : Bool

/-- `_mkp_event_write` on a connection that is sending; one that receives sends nothing. -/
def Sending.eventWrite (mem : Nat → UInt8) (s : Sending) (res : SendResult) : Option (Bytes × Sending) :=
  if s.state = .sending ∧ s.attached then
    match s.iov.chunkIovSendv mem res with
    | none => none
    | some (.wrote n, sent) =>
        let remain := (s.beginReqRemain + 2 ^ 64 - n) % 2 ^ 64
        if remain = 0 then
          some (sent, { state := .receiving, beginReqRemain := remain, iov := s.iov.chunkIovReset, attached := false })
        else some (sent, { s with beginReqRemain := remain, iov := (s.iov.chunkIovDrop n).2 })
    | some (_, sent) => some (sent, s)
  else some ([], s)

/-- The events of a connection, and all that is sent. -/
def Sending.events (mem : Nat → UInt8) : Sending → List SendResult → Option (Bytes × Sending)
  | s, [] => some ([], s)
  | s, res :: answers =>
      (s.eventWrite mem res).bind fun (sent, s) => (events mem s answers).map fun (more, s) => (sent ++ more, s)

/-- `begin_req_remain` is what is left, and a connection receives when nothing is. -/
structure Sending.Ok (s : Sending) : Prop where
  remain : s.beginReqRemain = s.iov.chunkIovLength
  done : s.state = .sending ∧ s.attached ∨ s.state = .receiving ∧ s.iov.index = 0

namespace IovArray

/-- The answers of the kernel: all that was taken is sent, and something is taken of
what is not empty. -/
theorem chunkIovSendv_wrote {mem : Nat → UInt8} {iov : IovArray} {res : SendResult} {n : Nat} {sent : Bytes}
    (h : iov.chunkIovSendv mem res = some (.wrote n, sent)) :
    sent = (iov.bytes mem).take n ∧ n ≤ iov.chunkIovLength ∧ (0 < n ∨ iov.chunkIovLength = 0) := by
  unfold chunkIovSendv at h
  split at h
  · cases res with
    | wrote m =>
        simp only at h
        split at h
        · next hm =>
            cases h
            exact ⟨rfl, hm⟩
        · contradiction
    | again => cases h
    | error => cases h
  · next h0 =>
      cases h
      refine ⟨rfl, Nat.zero_le _, .inr ?_⟩
      rw [chunkIovLength, held, Nat.eq_zero_of_not_pos h0]
      rfl

theorem chunkIovSendv_not_wrote {mem : Nat → UInt8} {iov : IovArray} {res res' : SendResult} {sent : Bytes}
    (h : iov.chunkIovSendv mem res = some (res', sent)) (hne : ∀ n, res' ≠ .wrote n) : sent = [] := by
  unfold chunkIovSendv at h
  split at h
  · cases res with
    | wrote m =>
        simp only at h
        split at h
        · cases h
          exact absurd rfl (hne m)
        · contradiction
    | again => cases h; rfl
    | error => cases h; rfl
  · cases h
    exact absurd rfl (hne 0)

end IovArray

/-- The remaining bytes of the counter after a write. -/
theorem remain_after {remain n : Nat} (hfits : remain < 2 ^ 64) (hle : n ≤ remain) :
    (remain + 2 ^ 64 - n) % 2 ^ 64 = remain - n := by
  omega

/-- **Step**: what is sent and what is left are together what was there. -/
theorem Sending.Ok.eventWrite {mem : Nat → UInt8} {s s' : Sending} {res : SendResult} {sent : Bytes} (hok : s.Ok)
    (h : s.eventWrite mem res = some (sent, s')) : s'.Ok ∧ sent ++ s'.iov.bytes mem = s.iov.bytes mem := by
  unfold Sending.eventWrite at h
  split at h
  · split at h
    · contradiction
    · next n sent' hsend =>
        obtain ⟨rfl, hle, hsome⟩ := IovArray.chunkIovSendv_wrote hsend
        have hrem := remain_after (hok.remain.symm ▸ s.iov.fits) (hok.remain.symm ▸ hle)
        simp only [hrem] at h
        split at h
        · next hlast =>
            -- The write took all there was, so the vector is reset.
            cases h
            have hall : s.iov.chunkIovLength ≤ n := by have := hok.remain; omega
            refine ⟨⟨hlast.trans rfl, .inr ⟨rfl, rfl⟩⟩, ?_⟩
            rw [List.take_of_length_le (by rwa [s.iov.length_bytes])]
            exact List.append_nil _
        · next hmore =>
            -- Part of it is left, and some of it was taken.
            cases h
            have h0 : 0 < n := by have := hok.remain; omega
            have hleft := (IovArray.Left.refl mem s.iov).drop h0 hle
            refine ⟨⟨?_, ?_⟩, ?_⟩
            · rw [hleft.length, hok.remain, Nat.zero_add]
            · refine hok.done.imp id fun hdone => ⟨hdone.1, hleft.index.trans hdone.2⟩
            · rw [IovArray.bytes_chunkIovDrop mem h0 hle, List.take_append_drop]
    · next res' sent' hne hsend =>
        cases h
        rw [IovArray.chunkIovSendv_not_wrote hsend hne]
        exact ⟨hok, rfl⟩
  · cases h
    exact ⟨hok, rfl⟩

/-- **Run**: over any events, what was sent and what is left are what there was. -/
theorem Sending.Ok.events {mem : Nat → UInt8} {answers : List SendResult} :
    ∀ {s s' : Sending} {sent : Bytes}, s.Ok → s.events mem answers = some (sent, s') →
      s'.Ok ∧ sent ++ s'.iov.bytes mem = s.iov.bytes mem := by
  induction answers with
  | nil =>
      intro s s' sent hok h
      cases h
      exact ⟨hok, rfl⟩
  | cons res answers ih =>
      intro s s' sent hok h
      obtain ⟨⟨first, s₁⟩, hstep, h⟩ := Option.bind_eq_some_iff.mp h
      obtain ⟨⟨more, s₂⟩, hrest, h⟩ := Option.map_eq_some_iff.mp h
      cases h
      obtain ⟨hok₁, hfirst⟩ := hok.eventWrite hstep
      obtain ⟨hok₂, hmore⟩ := ih hok₁ hrest
      exact ⟨hok₂, by rw [List.append_assoc, hmore, hfirst]⟩

/-- **Sending in parts**: whatever the writes take, they send the bytes of the vector in
order; what is left is the rest of them, the entries not in use are not touched, and a drop
of nothing or of more than is left is refused.  The same holds over the events of a
connection, which receives once all is sent. -/
theorem chunkIov_sent_in_parts (mem : Nat → UInt8) (iov : IovArray) (rs : List Nat) (hpos : ∀ r ∈ rs, 0 < r)
    (hsum : rs.sum ≤ iov.chunkIovLength) :
    (∃ last, iov.sendParts mem rs = some ((iov.bytes mem).take rs.sum, last) ∧ IovArray.Left mem iov rs.sum last ∧
      ∀ bytes, bytes = 0 ∨ iov.chunkIovLength - rs.sum < bytes → last.chunkIovDrop bytes = (-1, last)) ∧
    ∀ answers sent s',
      Sending.events mem ⟨.sending, iov.chunkIovLength, iov, true⟩ answers = some (sent, s') →
        sent ++ s'.iov.bytes mem = iov.bytes mem ∧ s'.beginReqRemain = s'.iov.chunkIovLength ∧
          (s'.state = .receiving → sent = iov.bytes mem) := by
  refine ⟨?_, fun answers sent s' h => ?_⟩
  · obtain ⟨last, hsend, hleft⟩ := IovArray.sendParts_of_left hpos (.refl mem iov) hsum
    rw [Nat.zero_add] at hleft
    exact ⟨last, hsend, hleft, fun bytes hbytes => IovArray.chunkIovDrop_refused (hleft.length ▸ hbytes)⟩
  · have hstart : Sending.Ok ⟨.sending, iov.chunkIovLength, iov, true⟩ := ⟨rfl, .inl ⟨rfl, rfl⟩⟩
    obtain ⟨hok, hbytes⟩ := hstart.events h
    refine ⟨hbytes, hok.remain, fun hrecv => ?_⟩
    have hindex : s'.iov.index = 0 := by
      rcases hok.done with ⟨hsending, -⟩ | ⟨-, hindex⟩
      · rw [hsending] at hrecv
        contradiction
      · exact hindex
    rw [← hbytes, IovArray.bytes, IovArray.held, hindex]
    exact (List.append_nil _).symm

/-- Three entries of an array of four, the last of which was never set. -/
def threeEntries : IovArray :=
  { io := [⟨0, 3⟩, ⟨10, 2⟩, ⟨20, 4⟩, ⟨7, 99⟩], index := 3, index_le := by decide, fits := by decide }

/-- Writes of four, one and three bytes leave one byte. -/
theorem chunkIov_sent_in_parts_of_three :
    [4, 1, 3].sum ≤ threeEntries.chunkIovLength ∧
      ∃ last, threeEntries.sendParts UInt8.ofNat [4, 1, 3] = some ([0, 1, 2, 10, 11, 20, 21, 22], last) ∧
        last.bytes UInt8.ofNat = [23] := by
  obtain ⟨⟨last, hsend, hleft, -⟩, -⟩ :=
    chunkIov_sent_in_parts UInt8.ofNat threeEntries [4, 1, 3] (by decide) (by decide)
  exact ⟨by decide, last, hsend, hleft.bytes⟩

end Monkey.Fastcgi
