import Monkey.Lib.CString
import Mathlib.Data.UInt

/-!
# Monkey.Fastcgi.Protocol

The records of the FastCGI protocol (`protocol.c`): the eight bytes of a header,
the two request bodies, and the name-value pairs of a `PARAMS` stream.

A record is a header of eight bytes, a body and a padding; the header has the version, the
type, the id of the request and the two lengths, with the high byte of a number first.  A
parameter is the length of its name and that of its value, in one byte below 128 and else in
four with the highest bit set, and then the two texts.  A stream is cut into records with a
body and is ended by one without.

The source writes and reads the bytes one by one; here they are lists, and the header is a
structure as it is there.
-/

namespace Monkey.Fastcgi

/-- `FCGI_HEADER_LEN`. -/
def fcgiHeaderLen : Nat := 8

/-! ## message types

The type of a received record is any byte. -/

def fcgiBeginRequest : UInt8 := 1
def fcgiAbortRequest : UInt8 := 2
def fcgiEndRequest : UInt8 := 3
def fcgiParams : UInt8 := 4
def fcgiStdin : UInt8 := 5
def fcgiStdout : UInt8 := 6
def fcgiStderr : UInt8 := 7

/-- `FCGI_VERSION_1`. -/
def fcgiVersion1 : UInt8 := 1

/-- `FCGI_RESPONDER`. -/
def fcgiResponder : UInt16 := 1

/-- `FCGI_KEEP_CONN`. -/
def fcgiKeepConn : UInt8 := 1

/-! ## headers -/

/-- `struct fcgi_header`. -/
structure FcgiHeader where
  version : UInt8 := fcgiVersion1
  type : UInt8
  reqId : UInt16
  bodyLen : UInt16 := 0
  bodyPad : UInt8 := 0
deriving DecidableEq, Repr

/-- The length of the record of a header. -/
def FcgiHeader.pkgSize (h : FcgiHeader) : Nat := fcgiHeaderLen + h.bodyLen.toNat + h.bodyPad.toNat

theorem FcgiHeader.le_pkgSize (h : FcgiHeader) : fcgiHeaderLen ≤ h.pkgSize := by
  unfold FcgiHeader.pkgSize
  omega

/-- `fcgi_read_header`, of at least seven bytes. -/
def fcgiReadHeader (p : Bytes) : FcgiHeader where
  version := p.getD 0 0
  type := p.getD 1 0
  reqId := ((p.getD 2 0).toUInt16 <<< 8) + (p.getD 3 0).toUInt16
  bodyLen := ((p.getD 4 0).toUInt16 <<< 8) + (p.getD 5 0).toUInt16
  bodyPad := p.getD 6 0

/-- `fcgi_write_header`: seven bytes, the reserved one is left as it is. -/
def fcgiWriteHeader (h : FcgiHeader) : Bytes :=
  [h.version, h.type, (h.reqId >>> 8).toUInt8, h.reqId.toUInt8, (h.bodyLen >>> 8).toUInt8,
    h.bodyLen.toUInt8, h.bodyPad]

theorem fcgiWriteHeader_length (h : FcgiHeader) : (fcgiWriteHeader h).length = 7 := rfl

/-- The two bytes of a sixteen-bit field. -/
theorem join_high_low (x : UInt16) :
    ((x >>> 8).toUInt8.toUInt16 <<< 8) + x.toUInt8.toUInt16 = x := by
  apply UInt16.toNat_inj.mp
  have := x.toNat_lt
  simp only [UInt16.toNat_add, UInt16.toNat_shiftLeft, UInt8.toNat_toUInt16, UInt16.toNat_toUInt8,
    UInt16.toNat_shiftRight]
  simp [Nat.shiftLeft_eq, Nat.shiftRight_eq_div_pow]
  omega

/-- **Reading gives back what was written.** -/
theorem fcgiReadHeader_fcgiWriteHeader (h : FcgiHeader) (rest : Bytes) :
    fcgiReadHeader (fcgiWriteHeader h ++ rest) = h := by
  cases h
  simp only [fcgiReadHeader, fcgiWriteHeader, List.cons_append, List.getD_cons_zero,
    List.getD_cons_succ, join_high_low]

/-- `fcgi_write_begin_req_body`: three bytes of the eight. -/
def fcgiWriteBeginReqBody (role : UInt16) (flags : UInt8) : Bytes :=
  [(role >>> 8).toUInt8, role.toUInt8, flags]

/-! ## parameters -/

/-- `write_length`. -/
def writeLength (len : Nat) : Bytes :=
  if len > 127 then
    [UInt8.ofNat (128 + (len >>> 24) % 128), UInt8.ofNat (len >>> 16), UInt8.ofNat (len >>> 8),
      UInt8.ofNat len]
  else [UInt8.ofNat len]

/-- `fcgi_param_write`. -/
def fcgiParamWrite (key value : Bytes) : Bytes :=
  writeLength key.length ++ writeLength value.length ++ key ++ value

theorem length_writeLength_le (len : Nat) : (writeLength len).length ≤ 4 := by
  unfold writeLength
  split <;> simp

theorem length_fcgiParamWrite_le (key value : Bytes) :
    (fcgiParamWrite key value).length ≤ 8 + key.length + value.length := by
  have hk := length_writeLength_le key.length
  have hv := length_writeLength_le value.length
  simp only [fcgiParamWrite, List.length_append]
  omega

/-! ## streams of records -/

/-- `bytes` are one record: the header, a reserved byte, the body and the padding, as
long as the header says. -/
def IsRecord (h : FcgiHeader) (body bytes : Bytes) : Prop :=
  ∃ reserved pad, bytes = fcgiWriteHeader h ++ reserved :: (body ++ pad) ∧
    body.length = h.bodyLen.toNat ∧ pad.length = h.bodyPad.toNat

/-- `bytes` are a stream of a request that carries `content`: records with a body, and
an empty one at the end. -/
inductive IsStream (type : UInt8) (reqId : UInt16) : Bytes → Bytes → Prop
  | done {h : FcgiHeader} {bytes : Bytes} : h.version = fcgiVersion1 → h.type = type →
      h.reqId = reqId → IsRecord h [] bytes → IsStream type reqId [] bytes
  | cons {h : FcgiHeader} {body content bytes rest : Bytes} : h.version = fcgiVersion1 →
      h.type = type → h.reqId = reqId → body ≠ [] → IsRecord h body bytes →
      IsStream type reqId content rest → IsStream type reqId (body ++ content) (bytes ++ rest)

/-- **Records are told apart by their bytes**, whatever follows them. -/
theorem IsRecord.unique {h h' : FcgiHeader} {body body' bytes bytes' rest rest' : Bytes}
    (hr : IsRecord h body bytes) (hr' : IsRecord h' body' bytes')
    (heq : bytes ++ rest = bytes' ++ rest') : h = h' ∧ body = body' ∧ rest = rest' := by
  obtain ⟨reserved, pad, rfl, hbody, hpad⟩ := hr
  obtain ⟨reserved', pad', rfl, hbody', hpad'⟩ := hr'
  have hh : h = h' := by
    have := congrArg fcgiReadHeader heq
    simpa only [List.append_assoc, fcgiReadHeader_fcgiWriteHeader] using this
  subst hh
  simp only [List.append_assoc, List.cons_append, List.append_cancel_left_eq, List.cons.injEq] at heq
  obtain ⟨rfl, hrest⟩ := List.append_inj heq.2 (hbody.trans hbody'.symm)
  exact ⟨rfl, rfl, (List.append_inj hrest (hpad.trans hpad'.symm)).2⟩

/-- **A stream carries one content**, whatever follows it. -/
theorem IsStream.unique {type : UInt8} {reqId : UInt16} {content content' bytes bytes' rest rest' : Bytes}
    (hs : IsStream type reqId content bytes) (hs' : IsStream type reqId content' bytes')
    (heq : bytes ++ rest = bytes' ++ rest') : content = content' ∧ rest = rest' := by
  induction hs generalizing content' bytes' with
  | done _ _ _ hr =>
      cases hs' with
      | done _ _ _ hr' => exact ⟨rfl, (hr.unique hr' heq).2.2⟩
      | cons _ _ _ hne hr' _ =>
          rw [List.append_assoc] at heq
          exact absurd (hr.unique hr' heq).2.1.symm hne
  | cons _ _ _ hne hr _ ih =>
      rw [List.append_assoc] at heq
      cases hs' with
      | done _ _ _ hr' => exact absurd (hr.unique hr' heq).2.1 hne
      | cons _ _ _ _ hr' hs' =>
          rw [List.append_assoc] at heq
          obtain ⟨-, rfl, hrest⟩ := hr.unique hr' heq
          obtain ⟨rfl, rfl⟩ := ih hs' hrest
          exact ⟨rfl, rfl⟩

/-- A stream ends with an empty record. -/
theorem IsStream.exists_last {type : UInt8} {reqId : UInt16} {content bytes : Bytes}
    (hs : IsStream type reqId content bytes) :
    ∃ front last h, bytes = front ++ last ∧ h.version = fcgiVersion1 ∧ h.type = type ∧
      h.reqId = reqId ∧ IsRecord h [] last := by
  induction hs with
  | done hv ht hi hr => exact ⟨[], _, _, rfl, hv, ht, hi, hr⟩
  | cons _ _ _ _ _ _ ih =>
      obtain ⟨front, last, h, rfl, hh⟩ := ih
      exact ⟨_ ++ front, last, h, by rw [List.append_assoc], hh⟩

/-- `bytes` are a request to a responder: its begin record, the environment and the
standard input. -/
def IsRequest (reqId : UInt16) (keepConn : Bool) (env data bytes : Bytes) : Prop :=
  ∃ b p s, bytes = b ++ (p ++ s) ∧
    (∃ reserved, reserved.length = 5 ∧
      IsRecord { type := fcgiBeginRequest, reqId := reqId, bodyLen := 8 }
        (fcgiWriteBeginReqBody fcgiResponder (if keepConn then fcgiKeepConn else 0) ++ reserved) b) ∧
    IsStream fcgiParams reqId env p ∧ IsStream fcgiStdin reqId data s

end Monkey.Fastcgi
