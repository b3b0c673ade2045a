import Monkey.Http.ClientStream
import Monkey.Lib.Extent
import Monkey.Strings

/-!
# Monkey.Palm.Relay

The way of a response from a Palm server to the client (`palm.c`): what is read from the
server lies in a buffer until a write event on the client's socket, which takes as much
of it as it likes.

The server is read at any time, and the client's socket is in write mode all along.

The two buffers lie one behind the other in the structure, and the first is searched as a string,
so a search that finds no end in it goes on into the second (`PalmRequest.mem`).  How the request
gets to the server is the subject of `Monkey.Palm.Protocol`.
-/

namespace Monkey.Palm

/-- `MK_PALM_BUFFER_SIZE`. -/
def mkPalmBufferSize : Nat := 32768

/-- `struct mk_palm_request`: the buffers, the lengths and the flags. -/
structure PalmRequest where
  inBuffer : Bytes
  outBuffer : Bytes
  inLen : Nat := 0
  outLen : Int := 0
  inOffset : Nat := 0
  headersSent : Bool := false
  isTeChunked : Bool := false
  sr : SessionRequest

/-- `mk_palm_request_create`: zeroed memory. -/
def mkPalmRequestCreate (sr : SessionRequest) : PalmRequest where
  inBuffer := List.replicate mkPalmBufferSize 0
  outBuffer := List.replicate mkPalmBufferSize 0
  sr := sr

/-- What the client's socket takes of one write: everything, no more than some bytes, or
nothing (`-1`). -/
inductive Take
  | all
  | upTo (n : Nat)
  | fail
deriving DecidableEq, Repr

/-- What the write returns. -/
def Take.ret (len : Nat) : Take → Int
  | .all => len
  | .upTo n => min n len
  | .fail => -1

def Take.taken (bs : Bytes) : Take → Bytes
  | .all => bs
  | .upTo n => bs.take n
  | .fail => []

/-- A request between its Palm server and the client: what the server sent and is not read,
what the client's socket takes of the next writes, and what it took.  `aborted` is a
`mk_bug`.

Unlike the relay of the CGI plugin this one does not wait for the client, and a write may take a
part of what it is given: `takes` has what each of the next writes comes to, and behind its end
everything is taken. -/
structure Relay where
  pr : PalmRequest
  upstream : Bytes
  takes : List Take := []
  sent : List Sent := []
  ended : Bool := false
  aborted : Bool := false

/-! ## writing to the client -/

/-- `mk_api->socket_send`. -/
def Relay.send (x : Relay) (bs : Bytes) : Int × Relay :=
  match x.takes with
  | [] => (bs.length, { x with sent := x.sent ++ [.bytes bs] })
  | t :: ts => (t.ret bs.length, { x with takes := ts, sent := x.sent ++ [.bytes (t.taken bs)] })

/-- The header in the writes of `mk_header_send`, as one. -/
def Relay.sendBlock (x : Relay) (block : HeaderBlock) : Relay :=
  match x.takes with
  | [] => { x with sent := x.sent ++ [.head block] }
  | .all :: ts => { x with takes := ts, sent := x.sent ++ [.head block] }
  | .upTo n :: ts => { x with takes := ts, sent := x.sent ++ [.cut block n] }
  | .fail :: ts => { x with takes := ts, sent := x.sent ++ [.cut block 0] }

/-- `mk_palm_write` of `len` bytes at `buffer`. -/
def mkPalmWrite (x : Relay) (buffer : Bytes) (len : Int) (isChunked : Bool) : Int × Relay :=
  if len ≤ 0 then (0, x)
  else
    let x := if isChunked then (x.send (printfX len.toNat ++ crlf)).2 else x
    let (n, x) := x.send (buffer.take len.toNat)
    let x := if isChunked then (x.send crlf).2 else x
    (n, x)

/-- `mk_palm_send_end_chunk`. -/
def mkPalmSendEndChunk (x : Relay) : Relay := if x.pr.isTeChunked then (x.send lastChunk).2 else x

/-- The status and the transfer encoding that `mk_palm_send_headers` sets. -/
def PalmRequest.withDefaults (pr : PalmRequest) : PalmRequest :=
  let h := pr.sr.headers
  let h := if h.status = 0 then { h with status := mkHttpOk } else h
  if pr.sr.protocol.isOld = false ∧ (h.status < mkRedirMultiple ∨ h.status > mkRedirUseProxy) then
    { pr with isTeChunked := true, sr := { pr.sr with headers := { h with transferEncoding := 0 } } }
  else { pr with sr := { pr.sr with headers := h } }

/-- `mk_palm_send_headers`; a status that is not known is a `mk_bug`. -/
def mkPalmSendHeaders (ctx : Ctx) (x : Relay) : Relay :=
  let pr := x.pr.withDefaults
  match sendHead ctx pr.sr with
  | some (block, sr) => Relay.sendBlock { x with pr := { pr with sr := sr } } block
  | none => { x with pr := pr, aborted := true }

/-! ## the status -/

def statusField : Bytes := ascii "Status: ".toList
def iovCrlf : Bytes := [0x0d, 0x0a]
def iovLf : Bytes := [0x0a]

/-- `mk_palm_cgi_status`: where the content starts, and the request with the status. -/
def mkPalmCgiStatus (data : Bytes) (sr : SessionRequest) : Nat × SessionRequest :=
  if strlen data ≤ 8 + 3 then (0, sr)
  else if strncmp data statusField 8 then
    let status := toInt (strtol (cstr ((data.drop 8).take 3)))
    let withStatus := { sr with headers := { sr.headers with status := status } }
    if status = 0 then (0, sr)
    else if mkStringSearch data iovCrlf > 0 then ((mkStringSearch data iovCrlf + 2).toNat, withStatus)
    else if mkStringSearch data iovLf > 0 then ((mkStringSearch data iovLf + 1).toNat, withStatus)
    else (0, sr)
  else (0, sr)

/-! ## the events -/

/-- The end of the headers, as it is searched for. -/
def headersEnd (data : Bytes) : Option Nat :=
  let pos := mkStringSearch data iovCrlfcrlf
  let pos := if pos ≤ 0 then mkStringSearch data iovLflflflf else pos
  if pos ≤ 0 then none else some (pos + 4).toNat

/-- The memory from `in_buffer` on. -/
def PalmRequest.mem (pr : PalmRequest) : Bytes := pr.inBuffer ++ pr.outBuffer

/-- The headers in `_mkp_event_read`; a failed write closes the connection. -/
def Relay.readHeaders (x : Relay) (ctx : Ctx) : Relay :=
  match headersEnd x.pr.mem with
  | none => x
  | some headersEnd =>
      let status := mkPalmCgiStatus x.pr.mem x.pr.sr
      let offset := status.1
      let x := mkPalmSendHeaders ctx { x with pr := { x.pr with sr := status.2 } }
      if x.aborted then x
      else
        let (n, x) := mkPalmWrite x (x.pr.mem.drop offset) (headersEnd - offset : Int) false
        if n < 0 then { x with ended := true }
        else { x with pr := { x.pr with headersSent := true, inOffset := headersEnd + offset } }

/-- `_mkp_event_read`, where the read returns `n` bytes; without any the connection is
closed. -/
def Relay.eventRead (x : Relay) (ctx : Ctx) (n : Nat) : Relay :=
  if n = 0 then
    let x := if x.pr.sr.protocol.isOld then x else mkPalmSendEndChunk x
    { x with ended := true }
  else
    let inBuffer := fillAt x.pr.inBuffer x.pr.inLen (x.upstream.take n)
    let x := { x with
      pr := { x.pr with inBuffer := inBuffer, inLen := x.pr.inLen + n }, upstream := x.upstream.drop n }
    if x.pr.headersSent then x else x.readHeaders ctx

/-- `strncpy`: the bytes before a NUL, and NULs up to `n`. -/
def strncpy (dest src : Bytes) (n : Nat) : Bytes :=
  let str := cstr (src.take n)
  str ++ List.replicate (n - str.length) 0 ++ dest.drop n

/-- `_mkp_event_write`.  What the client does not take is copied to the second buffer. -/
def Relay.eventWrite (x : Relay) : Relay :=
  if 0 < x.pr.inLen ∧ x.pr.headersSent = true then
    let len := (x.pr.inLen : Int) - x.pr.inOffset
    let (n, x) := mkPalmWrite x (x.pr.mem.drop x.pr.inOffset) len x.pr.isTeChunked
    let pr :=
      if 0 ≤ n ∧ n < len then
        { x.pr with
          outBuffer := strncpy x.pr.outBuffer x.pr.inBuffer (x.pr.inLen - n.toNat)
          outLen := x.pr.inLen - n }
      else x.pr
    { x with pr := { pr with inLen := 0, inOffset := 0 } }
  else x

/-- An event with what the system does in it: the bytes a read returns, and what the
client's socket takes of each write. -/
inductive Event
  | read (n : Nat) (takes : List Take)
  | write (takes : List Take)

/-- A read returns no more than there is, and than there is room for; it returns nothing
at the end of the stream, or without room. -/
def Relay.Possible (x : Relay) : Event → Prop
  | .read n _ =>
      n ≤ x.upstream.length ∧ n ≤ mkPalmBufferSize - x.pr.inLen ∧
        (n = 0 → x.upstream = [] ∨ mkPalmBufferSize - x.pr.inLen = 0)
  | .write _ => True

instance (x : Relay) : (e : Event) → Decidable (x.Possible e)
  | .read _ _ => inferInstanceAs (Decidable (_ ∧ _ ∧ _))
  | .write _ => inferInstanceAs (Decidable True)

def Relay.event (x : Relay) (ctx : Ctx) : Event → Relay
  | .read n takes => Relay.eventRead { x with takes := takes } ctx n
  | .write takes => Relay.eventWrite { x with takes := takes }

/-- One event, while the request lasts. -/
def Relay.step (ctx : Ctx) (x : Relay) (e : Event) : Option Relay :=
  if (x.ended = false ∧ x.aborted = false) ∧ x.Possible e then some (x.event ctx e) else none

end Monkey.Palm
