import Monkey.Strings

/-!
# Monkey.Request.Headers

From the bytes of a request block to the fields of a `SessionRequest`: the
method, the first line, the table of header rows and the header lookups, as
`mk_request_header_process` runs them.  A failed step returns `-1` and leaves
the fields set so far.

The values are pointers into the block, each with its length: nothing is copied, and nothing
behind a value ends it but that length.  A search that is given no length, or a longer one,
runs on into what follows, which is here as far as bytes have been received; what is touched
behind those is asked in `Monkey.Request.Touches`.
-/

namespace Monkey

def mkCrlf : Bytes := [0x0d, 0x0a]
def mkEndblock : Bytes := [0x0d, 0x0a, 0x0d, 0x0a]

/-! ## method and protocol -/

/-- `mk_http_method_check`: the names are compared up to the given length
only. -/
def mkHttpMethodCheck (data : Bytes) (len : Nat) : Method :=
  if strncmp data (ascii ['G', 'E', 'T']) len then .get
  else if strncmp data (ascii ['P', 'O', 'S', 'T']) len then .post
  else if strncmp data (ascii ['H', 'E', 'A', 'D']) len then .head
  else if strncmp data (ascii ['P', 'U', 'T']) len then .put
  else if strncmp data (ascii ['D', 'E', 'L', 'E', 'T', 'E']) len then .delete
  else .unknown

/-- `mk_http_method_get`. -/
def mkHttpMethodGet (body : Bytes) : Method :=
  let pos := mkStringCharSearch body 0x20 7
  if pos ≤ 2 ∨ pos ≥ 7 then .unknown else mkHttpMethodCheck body pos.toNat

/-- `mk_http_protocol_check`; a negative length compares whole strings. -/
def mkHttpProtocolCheck (protocol : Bytes) (len : Int) : Protocol :=
  let n := if len < 0 then 2 ^ 64 else len.toNat
  if strncmp protocol (ascii ['H', 'T', 'T', 'P', '/', '1', '.', '1']) n then .http11
  else if strncmp protocol (ascii ['H', 'T', 'T', 'P', '/', '1', '.', '0']) n then .http10
  else if strncmp protocol (ascii ['H', 'T', 'T', 'P', '/', '0', '.', '9']) n then .http09
  else .unknown

/-! ## the table of header rows -/

/-- `MK_HEADERS_TOC_LEN`. -/
def mkHeadersTocLen : Nat := 32

/-- The loop of `mk_request_header_toc_parse`: `off` is the offset of `p`, `l`
the offset of the last CRLF found (`none` before the first, the `NULL` the
source starts from). -/
def mkRequestHeaderTocLoop (len : Int) : Nat → Bytes → Nat → Option Nat → List HeaderTocRow
  | 0, _, _, _ => []
  | n + 1, p, off, l =>
      if l.elim true (fun l => decide ((l : Int) < len)) then
        match strstr p mkCrlf with
        | some k =>
            ⟨p, k, false⟩ ::
              mkRequestHeaderTocLoop len n (p.drop (k + 2)) (off + k + 2) (some (off + k))
        | none => []
      else []

/-- `mk_request_header_toc_parse`. -/
def mkRequestHeaderTocParse (data : Bytes) (len : Int) : List HeaderTocRow :=
  mkRequestHeaderTocLoop len mkHeadersTocLen data 0 none

/-- `mk_request_header_get`: the first row not yet consumed that starts with
the key; the value starts one byte after the key. -/
def mkRequestHeaderGet (toc : List HeaderTocRow) (key : Bytes) : MkPointer × List HeaderTocRow :=
  match toc with
  | [] => ({}, [])
  | row :: rows =>
      if row.found = false ∧ strncasecmp row.init key key.length then
        (⟨some (row.init.drop (key.length + 1)),
          toULong ((row.len : Int) - (key.length + 1))⟩, { row with found := true } :: rows)
      else
        let (v, rows') := mkRequestHeaderGet rows key
        (v, row :: rows')

def rhHost : Bytes := ascii ['H', 'o', 's', 't', ':']
def rhConnection : Bytes := ascii ['C', 'o', 'n', 'n', 'e', 'c', 't', 'i', 'o', 'n', ':']
def rhRange : Bytes := ascii ['R', 'a', 'n', 'g', 'e', ':']
def rhIfModifiedSince : Bytes :=
  ascii ['I', 'f', '-', 'M', 'o', 'd', 'i', 'f', 'i', 'e', 'd', '-', 'S', 'i', 'n', 'c', 'e', ':']
def rhContentLength : Bytes :=
  ascii ['C', 'o', 'n', 't', 'e', 'n', 't', '-', 'L', 'e', 'n', 'g', 't', 'h', ':']
def rhContentType : Bytes :=
  ascii ['C', 'o', 'n', 't', 'e', 'n', 't', '-', 't', 'y', 'p', 'e', ':']

/-! ## first line, host and connection headers -/

/-- `index`, with the unspecified difference when the byte is missing. -/
def indexOf (sys : Sys) (s : Bytes) (c : UInt8) : Int :=
  ((strchr s c).map Int.ofNat).getD sys.nullDiff

/-- The `Host` part of `mk_request_header_process`: `none` is its `return -1`
(with the fields set before it), a port must be numeric and nonzero. -/
def mkRequestHostProcess (cfg : Config) (host : MkPointer) (sr : SessionRequest) :
    Bool × SessionRequest :=
  match host.data with
  | none => (true, { sr with host := { sr.host with data := none } })
  | some data =>
      let posSep := mkStringCharSearchR data 0x3a (toInt host.len)
      if posSep ≥ 0 then
        let sr := { sr with host := ⟨some data, toULong posSep⟩, hostPort := host }
        -- `short int port_len`, compared with the size of the `port` buffer
        let portLen := ((host.len : Int) - posSep - 1).bmod (2 ^ 16)
        if portLen ≥ 6 then (false, sr)
        else
          let port := cstr ((data.drop (posSep.toNat + 1)).take portLen.toNat)
          if port.all isdigit = false then (false, sr)
          else
            let sr := { sr with port := strtol port }
            if sr.port = 0 then (false, sr) else (true, sr)
      else (true, { sr with host := host, port := cfg.standardPort })

def keepAliveValue : Bytes := ascii ['K', 'e', 'e', 'p', '-', 'A', 'l', 'i', 'v', 'e']
def closeValue : Bytes := ascii ['C', 'l', 'o', 's', 'e']

/-- The keep-alive decision at the end of `mk_request_header_process`. -/
def mkRequestConnectionProcess (sr : SessionRequest) : SessionRequest :=
  let sr := match sr.protocol with
    | .http10 => { sr with keepAlive := false, closeNow := true }
    | .http11 => { sr with keepAlive := true, closeNow := false }
    | _ => sr
  match sr.connection.data with
  | none => sr
  | some data =>
      if mkStringSearchN data keepAliveValue (toInt sr.connection.len) ≥ 0 then
        { sr with keepAlive := true, closeNow := false }
      else if mkStringSearchN data closeValue (toInt sr.connection.len) ≥ 0 then
        { sr with keepAlive := false, closeNow := true }
      else { sr with connection := { sr.connection with len := 0 } }

/-- The header fields: table of rows, then `Host`, `Connection`, `Range` and
`If-Modified-Since` in this order. -/
def mkRequestFieldsProcess (cfg : Config) (headers : Bytes) (headersLen : Int)
    (sr : SessionRequest) : Int × SessionRequest :=
  let (host, toc) := mkRequestHeaderGet (mkRequestHeaderTocParse headers headersLen) rhHost
  match mkRequestHostProcess cfg host { sr with headersToc := toc } with
  | (false, sr) => (-1, sr)
  | (true, sr) =>
      let (connection, toc) := mkRequestHeaderGet sr.headersToc rhConnection
      let (range, toc) := mkRequestHeaderGet toc rhRange
      let (ifModifiedSince, toc) := mkRequestHeaderGet toc rhIfModifiedSince
      (0, mkRequestConnectionProcess
        { sr with
          headersToc := toc, connection := connection, range := range,
          ifModifiedSince := ifModifiedSince })

/-- The URI of the first line and its query string: a `?` found up to the end of
the URI splits it. -/
def mkRequestUriProcess (body : Bytes) (uriInit uriEnd protInit : Int)
    (sr : SessionRequest) : SessionRequest :=
  let queryInit := mkStringCharSearch (body.drop uriInit.toNat) 0x3f protInit
  let init := queryInit + uriInit
  if queryInit > 0 ∧ init ≤ uriEnd then
    { sr with
      queryString := mkPointerCreate body (init + 1) (uriEnd + 1)
      uri := mkPointerCreate body uriInit init }
  else { sr with uri := mkPointerCreate body uriInit (uriEnd + 1) }

/-- The processed URI: the decoded bytes up to their first NUL, or the URI
itself when there is nothing to decode. -/
def mkRequestUriDecode (sr : SessionRequest) : SessionRequest :=
  { sr with
    uriProcessed :=
      match mkUtilsUrlDecode sr.uri with
      | some temp => ⟨some temp, strlen temp⟩
      | none => sr.uri }

/-- `mk_request_header_process`: the first line, the URI, and then the header fields.  The offsets
of the first line are numbers as in the source: where `index` finds nothing they come from the
unspecified `nullDiff`, where a search of `mk_string.h` finds nothing from `-1`, and the tests are
made on what comes out.  Which bytes the function touches is the subject of
`Monkey.Request.Touches`. -/
def mkRequestHeaderProcess (cfg : Config) (sys : Sys) (sr : SessionRequest) :
    Int × SessionRequest :=
  let body := sr.body.data.getD []
  let uriInit := indexOf sys body 0x20 + 1
  let fhLimit := indexOf sys body 0x0a
  let uriEnd := mkStringCharSearchR body 0x20 fhLimit - 1
  if uriEnd ≤ 0 then (-1, sr)
  else
    let protInit := uriEnd + 2
    if uriEnd < uriInit then (-1, sr)
    else
      let sr := mkRequestUriProcess body uriInit uriEnd protInit sr
      if sr.uri.len < 1 then (-1, sr)
      else
        let protEnd := fhLimit - 1
        if protInit = protEnd then (-1, sr)
        else
          let sr :=
            if protEnd > 0 then
              { sr with protocol :=
                  mkHttpProtocolCheck (body.drop protInit.toNat) (protEnd - protInit) }
            else sr
          mkRequestFieldsProcess cfg (body.drop (protEnd + 2).toNat)
            ((sr.body.len : Int) - (protEnd + 2)) (mkRequestUriDecode sr)

/-- `mk_config_host_find`: the first host one of whose names is the text of the
`Host` header. -/
def mkConfigHostFind (cfg : Config) (host : MkPointer) : Option Host :=
  (cfg.defaultHost :: cfg.hosts).find? fun h =>
    h.serverNames.any fun name =>
      name.length == host.len && strncmp name (host.data.getD []) host.len

end Monkey
