import Monkey.Types

/-!
# Monkey.Http.Header

`mk_http_keepalive_check` and `mk_header_send`: the response header block, with
the `Connection` field decided from the last node of the request list and the
`Content-Range` field printed from the recorded bounds.

The block is kept as its fields.  The bytes made of it, with the date and the name of the
server in front, are in `Monkey.Http.HeaderText`, and the room they take in the vectors in
`Monkey.Http.HeaderIov`.  The cork on the socket is left out: it decides about packets, and
not about bytes.
-/

namespace Monkey

/-- `protocol < HTTP_PROTOCOL_11`. -/
def Protocol.isOld (p : Protocol) : Bool := p ≠ .http11

/-- `mk_http_keepalive_check` on the session's request list: only the last node
is looked at. -/
def mkHttpKeepaliveCheck (cfg : Config) (cs : ClientSession) (list : List SessionRequest) : Int :=
  match list.getLast? with
  | none => -1
  | some srNode =>
      if cfg.keepAlive = false ∨ srNode.keepAlive = false then -1
      else if srNode.protocol.isOld ∧ srNode.connection.len = 0 then -1
      else if srNode.protocol.isOld ∧ srNode.headers.contentLength ≤ 0 then -1
      else if srNode.closeNow = true then -1
      else if cs.counterConnections ≥ cfg.maxKeepAliveRequest then -1
      else 0

/-- The `Connection` field of the response to `sr`. -/
def connectionField (ctx : Ctx) (sr : SessionRequest) : ConnectionField :=
  if sr.headers.connection = 0 then
    if mkHttpKeepaliveCheck ctx.cfg ctx.cs (sr :: ctx.rest) = 0 then
      if sr.connection.len > 0 then
        .keepAlive (toInt (ctx.cfg.maxKeepAliveRequest - ctx.cs.counterConnections))
      else .none
    else .close
  else .none

/-- The `Content-Range` field: first, last and total as printed. -/
def contentRangeField (cfg : Config) (h : ResponseHeaders) : Option (Int × Int × Int) :=
  if (h.contentLength ≠ 0 ∧ (h.ranges0 ≥ 0 ∨ h.ranges1 ≥ 0)) ∧ cfg.resume = true then
    if h.ranges0 ≥ 0 ∧ h.ranges1 = -1 then some (h.ranges0, h.realLength - 1, h.realLength)
    else if h.ranges0 ≥ 0 ∧ h.ranges1 ≥ 0 then some (h.ranges0, h.ranges1, h.realLength)
    else if h.ranges0 = -1 ∧ h.ranges1 > 0 then
      some (h.realLength - h.ranges1, h.realLength - 1, h.realLength)
    else none
  else none

/-- The block of `mk_header_send`.  The length is printed by `mk_string_itop`,
which takes an `int`. -/
def headerBlock (ctx : Ctx) (sr : SessionRequest) : HeaderBlock where
  status := sr.headers.status
  lastModified := if sr.headers.lastModified > 0 then some sr.headers.lastModified else none
  connection := connectionField ctx sr
  location := sr.headers.location
  contentType := if sr.headers.contentType = [] then none else some sr.headers.contentType
  chunked :=
    (sr.headers.status < mkRedirMultiple ∨ sr.headers.status > mkRedirUseProxy) ∧
      sr.headers.transferEncoding = 0
  contentLength :=
    if sr.headers.contentLength ≥ 0 then some (toInt sr.headers.contentLength) else none
  contentRange := contentRangeField ctx.cfg sr.headers
  extraRows := sr.headers.extraRows

/-- `mk_header_send`: a status missing from the table is a `mk_bug`. -/
def mkHeaderSend (ctx : Ctx) (sr : SessionRequest) : Res where
  ret := 0
  sr := { sr with headers := { sr.headers with extraRows := [] } }
  out :=
    if sr.headers.status = mkCustomStatus ∨ sr.headers.status ∈ statusResponse then
      [.header (headerBlock ctx sr)]
    else [.bug]

/-- `mk_header_set_http_status`. -/
def mkHeaderSetHttpStatus (sr : SessionRequest) (status : Int) : SessionRequest :=
  { sr with headers := { sr.headers with status := status } }

end Monkey
