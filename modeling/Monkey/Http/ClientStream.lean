import Monkey.Http.Answer
import Monkey.Lib.Chunked

/-!
# Monkey.Http.ClientStream

What a plugin writes to a client by itself: the header of `mk_header_send`, which it
leaves open (`SH_CGI`), and bytes behind it.

A header is one piece of the stream, whole or cut off where the socket has taken no more.  The
client has received something when the stream begins with a whole header and has no second
one; then the bytes behind it are the body, in chunks or not.
-/

namespace Monkey

def iovCrlfcrlf : Bytes := [0x0d, 0x0a, 0x0d, 0x0a]
def iovLflf : Bytes := [0x0a, 0x0a]
def iovLflflflf : Bytes := [0x0a, 0x0a, 0x0a, 0x0a]

/-- One piece of the stream; a header may be cut off after some bytes. -/
inductive Sent
  | head (block : HeaderBlock)
  | cut (block : HeaderBlock) (len : Nat)
  | bytes (bs : Bytes)
deriving DecidableEq, Repr

/-- The bytes of a stream without a header. -/
def payload : List Sent → Option Bytes
  | [] => some []
  | .bytes bs :: sent => (payload sent).map (bs ++ ·)
  | _ => none

/-- The header of a stream that starts with its only one, and the bytes behind it. -/
def received : List Sent → Option (HeaderBlock × Bytes)
  | .head block :: sent => (payload sent).map (block, ·)
  | _ => none

/-- `mk_header_send` on the stream: `none` is a `mk_bug`. -/
def sendHead (ctx : Ctx) (sr : SessionRequest) : Option (HeaderBlock × SessionRequest) :=
  match (mkHeaderSend ctx sr).out with
  | [.header block] => some (block, (mkHeaderSend ctx sr).sr)
  | _ => none

theorem sendHead_eq (ctx : Ctx) {sr : SessionRequest} (h : sr.headers.status ∈ statusResponse) :
    sendHead ctx sr = some (headerBlock ctx sr, { sr with headers := { sr.headers with extraRows := [] } }) := by
  have hout : (mkHeaderSend ctx sr).out = [.header (headerBlock ctx sr)] := if_pos (.inr h)
  rw [sendHead, hout]
  rfl

theorem payload_snoc {sent : List Sent} {raw : Bytes} (h : payload sent = some raw) (bs : Bytes) :
    payload (sent ++ [.bytes bs]) = some (raw ++ bs) := by
  induction sent generalizing raw with
  | nil =>
      cases h
      simp [payload]
  | cons s sent ih =>
      cases s with
      | head block => exact absurd h (by simp [payload])
      | cut block len => exact absurd h (by simp [payload])
      | bytes bs' =>
          obtain ⟨raw', hraw', rfl⟩ := Option.map_eq_some_iff.mp h
          rw [List.cons_append, payload, ih hraw', List.append_assoc]
          rfl

/-- More bytes behind the header. -/
theorem received_snoc {sent : List Sent} {block : HeaderBlock} {raw : Bytes}
    (h : received sent = some (block, raw)) (bs : Bytes) :
    received (sent ++ [.bytes bs]) = some (block, raw ++ bs) := by
  cases sent with
  | nil => exact absurd h (by simp [received])
  | cons s sent =>
      cases s with
      | head block' =>
          obtain ⟨raw', hraw', heq⟩ := Option.map_eq_some_iff.mp h
          cases heq
          rw [List.cons_append, received, payload_snoc hraw' bs]
          rfl
      | cut block' len => exact absurd h (by simp [received])
      | bytes bs' => exact absurd h (by simp [received])

/-- The writes of a piece of the body. -/
def pieceWrites (chunked : Bool) (u : Bytes) : List Sent :=
  if chunked then [.bytes (printfX u.length ++ crlf), .bytes u, .bytes crlf] else [.bytes u]

theorem received_pieceWrites {sent : List Sent} {block : HeaderBlock} {raw : Bytes}
    (h : received sent = some (block, raw)) (chunked : Bool) (u : Bytes) :
    received (sent ++ pieceWrites chunked u) = some (block, raw ++ framePiece chunked u) := by
  cases chunked with
  | false => exact received_snoc h u
  | true =>
      have hall := received_snoc (received_snoc (received_snoc h (printfX u.length ++ crlf)) u) crlf
      simpa [pieceWrites, framePiece, chunk] using hall

theorem received_head (block : HeaderBlock) : received [.head block] = some (block, []) := rfl

end Monkey
