import Monkey.Cgi.Rules
import Monkey.Epoll
import Monkey.Http.ClientStream
import Monkey.Lib.Extent

/-!
# Monkey.Cgi.Output

The way of the output of a script to the client (`event.c`): what is read from the pipe
lies in a buffer of 1024 bytes until a write event on the client's socket.

The buffer has no NUL behind its valid bytes, and is searched with the functions for
strings.  `swrite` goes on until everything is written; a write that fails ends the
connection, and is not part of a run.
-/

namespace Monkey.Cgi

/-! ## the request -/

/-- `struct cgi_request`. -/
structure CgiRequest where
  inBuf : Bytes
  inLen : Nat := 0
  statusDone : Bool := false
  allHeadersDone : Bool := false
  chunked : Bool := false
  sr : SessionRequest

/-- `cgi_req_create`: zeroed memory. -/
def cgiReqCreate (sr : SessionRequest) : CgiRequest :=
  { inBuf := List.replicate pathLen 0, sr := sr }

/-- The request at the end of `do_cgi`, and the status the hook sets after it. -/
def doCgiRequest (sr : SessionRequest) : CgiRequest :=
  let r := cgiReqCreate sr
  let r :=
    if sr.protocol.isOld = false ∧ (sr.headers.status < mkRedirMultiple ∨ sr.headers.status > mkRedirUseProxy) then
      { r with chunked := true, sr := { sr with headers := { sr.headers with transferEncoding := 0 } } }
    else r
  { r with sr := mkHeaderSetHttpStatus r.sr mkHttpOk }

/-- A request between the pipe and the client: what the script wrote and is not read, the
modes of the two descriptors, and what was written to the client.  `strayed` is whether a
byte behind the valid ones was read or written, `aborted` is a `mk_bug`.

The script is a text that comes through the pipe in any pieces; while it writes nothing, there are
no events.  `swrite` goes on until everything is written or a write fails, so the only thing left
out of a client is that its socket refuses bytes, with which the connection is over. -/
structure Relay where
  r : CgiRequest
  pipe : Bytes
  fdMode : EpollMode := .read
  socketMode : EpollMode := .sleep
  sent : List Sent := []
  strayed : Bool := false
  ended : Bool := false
  aborted : Bool := false

/-- An access to the buffer up to `reach`, when `valid` bytes of it are valid. -/
def Relay.look (x : Relay) (valid reach : Nat) : Relay :=
  { x with strayed := x.strayed || decide (valid < reach) }

/-- `swrite` of bytes outside the buffer. -/
def Relay.write (x : Relay) (bs : Bytes) : Relay := { x with sent := x.sent ++ [.bytes bs] }

/-- `swrite` of `len` bytes at `outptr`. -/
def Relay.writeBuf (x : Relay) (mem : Bytes) (valid outptr len : Nat) : Relay :=
  (x.look valid (outptr + len)).write ((mem.drop outptr).take len)

/-! ## _mkp_event_write -/

/-- A part of the function goes on at `outptr`, or the function returns. -/
inductive Part
  | next (x : Relay) (outptr : Nat)
  | ret (x : Relay)

def statusField : Bytes := ascii "Status: ".toList
def httpField : Bytes := ascii "HTTP".toList

/-- Where the number of a status line is looked for, if the buffer starts with one. -/
def statusPos (mem : Bytes) : Option Nat :=
  if mem.take 8 = statusField then some 8 else if mem.take 4 = httpField then some 9 else none

/-- `mk_api->header_send`. -/
def Relay.headerSend (x : Relay) (ctx : Ctx) (outptr : Nat) : Part :=
  match sendHead ctx x.r.sr with
  | some (block, sr) =>
      .next { x with r := { x.r with sr := sr, statusDone := true }, sent := x.sent ++ [.head block] } outptr
  | none => .ret { x with aborted := true }

/-- The status line. -/
def Relay.statusPart (x : Relay) (ctx : Ctx) (mem : Bytes) (valid : Nat) : Part :=
  if x.r.statusDone = false ∧ 8 ≤ x.r.inLen then
    match statusPos mem with
    | some pos =>
        let x := x.look valid (pos + atoiReach (mem.drop pos))
        let x := { x with r := { x.r with sr := mkHeaderSetHttpStatus x.r.sr (toInt (strtol (mem.drop pos))) } }
        match memchr (mem.drop 8) 0x0a (x.r.inLen - 8) with
        | none => .ret x
        | some p =>
            let endl := 8 + p + 1
            Relay.headerSend { x with r := { x.r with inLen := x.r.inLen - endl } } ctx endl
    | none => x.headerSend ctx 0
  else .next x 0

/-- The end of the headers, as it is searched for. -/
def headersEnd (s : Bytes) : Option Nat :=
  match strstr s iovCrlfcrlf with
  | some p => some (p + 4)
  | none =>
      match strstr s iovLflflflf with
      | some p => some (p + 4)
      | none => (strstr s iovLflf).map (· + 2)

/-- The rest of the headers, which goes out without chunks. -/
def Relay.headersPart (x : Relay) (mem : Bytes) (valid outptr : Nat) : Part :=
  if x.r.allHeadersDone then .next x outptr
  else
    let s := mem.drop outptr
    let x := x.look valid (outptr + strstrReach s iovCrlfcrlf)
    match headersEnd s with
    | none =>
        let x := x.writeBuf mem valid outptr x.r.inLen
        .ret { x with r := { x.r with inLen := 0 }, socketMode := .sleep }
    | some len =>
        let x := x.writeBuf mem valid outptr len
        let inLen := (x.r.inLen + 2 ^ 32 - len) % 2 ^ 32
        let x := { x with r := { x.r with inLen := inLen, allHeadersDone := true } }
        if inLen = 0 then .ret { x with socketMode := .sleep } else .next x (outptr + len)

/-- A piece of the body. -/
def Relay.bodyPart (x : Relay) (mem : Bytes) (valid outptr : Nat) : Relay :=
  let x := if x.r.chunked then x.write (printfX x.r.inLen ++ crlf) else x
  let x := x.writeBuf mem valid outptr x.r.inLen
  let x := { x with r := { x.r with inLen := 0 }, socketMode := .sleep, fdMode := .read }
  if x.r.chunked then x.write crlf else x

/-- `_mkp_event_write`, with the memory behind the buffer. -/
def Relay.eventWrite (x : Relay) (ctx : Ctx) (beyond : Bytes) : Relay :=
  if x.r.inLen = 0 then x
  else
    let mem := x.r.inBuf ++ beyond
    let valid := x.r.inLen
    match x.statusPart ctx mem valid with
    | .ret x => x
    | .next x outptr =>
        match x.headersPart mem valid outptr with
        | .ret x => x
        | .next x outptr => x.bodyPart mem valid outptr

/-! ## the other events -/

/-- `_mkp_event_read`, where `read` takes `n` bytes of the pipe, if there is room. -/
def Relay.eventRead (x : Relay) (n : Nat) : Relay :=
  let x :=
    if pathLen - x.r.inLen < 1 then { x with fdMode := .sleep }
    else
      let inBuf := fillAt x.r.inBuf x.r.inLen (x.pipe.take n)
      { x with r := { x.r with inBuf := inBuf, inLen := x.r.inLen + n }, pipe := x.pipe.drop n }
  { x with socketMode := .write }

/-- `hangup` for the pipe, which ends the request. -/
def Relay.hangup (x : Relay) (ctx : Ctx) (beyond : Bytes) : Relay :=
  let x := x.eventWrite ctx beyond
  if x.aborted then x
  else
    let x := if x.r.chunked then x.write lastChunk else x
    { x with ended := true }

/-- An event with what the system does in it: the bytes a `read` takes, the memory behind
the buffer.  The script has closed the pipe at a hangup. -/
inductive Event
  | read (n : Nat)
  | write (beyond : Bytes)
  | hangup (beyond : Bytes)

/-- The event can come: a descriptor has events of its mode only, and a pipe that is not
empty is read before its hangup is seen, unless it sleeps. -/
def Relay.Possible (x : Relay) : Event → Prop
  | .read n => x.fdMode = .read ∧ 0 < n ∧ n ≤ x.pipe.length ∧ (x.r.inLen < pathLen → n ≤ pathLen - x.r.inLen)
  | .write _ => x.socketMode = .write
  | .hangup _ => x.fdMode = .read → x.pipe = []

instance (x : Relay) : (e : Event) → Decidable (x.Possible e)
  | .read _ => inferInstanceAs (Decidable (_ ∧ _ ∧ _ ∧ _))
  | .write _ => inferInstanceAs (Decidable (_ = _))
  | .hangup _ => inferInstanceAs (Decidable (_ → _))

def Relay.event (x : Relay) (ctx : Ctx) : Event → Relay
  | .read n => x.eventRead n
  | .write beyond => x.eventWrite ctx beyond
  | .hangup beyond => x.hangup ctx beyond

/-- One event, while the request lasts. -/
def Relay.step (ctx : Ctx) (x : Relay) (e : Event) : Option Relay :=
  if (x.ended = false ∧ x.aborted = false) ∧ x.Possible e then some (x.event ctx e) else none

end Monkey.Cgi
