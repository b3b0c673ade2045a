import Monkey.Lib.CInt
import Monkey.Lib.CString

/-!
# Monkey.Types

The data model of the server core: the configuration (`struct server_config`),
a request (`struct session_request`) with its response headers, a client
session (`struct client_session`) and the answers of the outside world the
request code asks for (`Sys`: file system, password file, plugins, sockets).

Pointers into the session buffer are `MkPointer`s: the bytes from the pointer
to the end of the received data, and the length the code recorded.

Texts are lists of bytes, and numbers are integers: where the width of a C type decides
something, the function in question converts with `toInt` or `toULong`, or the type is one
of fixed width.  Everything here but the configuration belongs to one worker, so none of it
is shared between threads.
-/

namespace Monkey

/-! ## pointers and enumerations -/

/-- `mk_pointer`: `data = none` is `NULL`; `len` is an `unsigned long`. -/
structure MkPointer where
  data : Option Bytes := none
  len : Nat := 0
deriving DecidableEq, Repr

/-- The bytes a pointer and its length delimit. -/
def MkPointer.text (p : MkPointer) : Bytes := (p.data.getD []).take p.len

/-- `mk_pointer_create`: an empty range is recorded with length 1. -/
def mkPointerCreate (buf : Bytes) (init stop : Int) : MkPointer where
  data := some (buf.drop init.toNat)
  len := if init ≠ stop then toULong (stop - init) else 1

/-- `HTTP_METHOD_*`. -/
inductive Method
  | unknown | get | post | head | put | delete
deriving DecidableEq, Repr

/-- `HTTP_PROTOCOL_*`; `unset` is the zero a new request starts with. -/
inductive Protocol
  | unset | unknown | http09 | http10 | http11
deriving DecidableEq, Repr

/-- `MK_REQUEST_STATUS_*`. -/
inductive RequestStatus
  | incomplete | completed
deriving DecidableEq, Repr

def exitNormal : Int := 0
def exitError : Int := -1
def exitAbort : Int := -2

/-- `MK_PLUGIN_RET_CONTINUE`. -/
def mkPluginRetContinue : Int := 100

/-! ## status codes -/

def mkCustomStatus : Int := 7
def mkHttpOk : Int := 200
def mkHttpPartial : Int := 206
def mkRedirMultiple : Int := 300
def mkRedirMoved : Int := 301
def mkNotModified : Int := 304
def mkRedirUseProxy : Int := 305
def mkClientBadRequest : Int := 400
def mkClientForbidden : Int := 403
def mkClientNotFound : Int := 404
def mkClientMethodNotAllowed : Int := 405
def mkClientRequestTimeout : Int := 408
def mkClientLengthRequired : Int := 411
def mkClientRequestEntityTooLarge : Int := 413
def mkServerInternalError : Int := 500
def mkServerNotImplemented : Int := 501
def mkServerHttpVersionUnsup : Int := 505

/-- The codes of the `status_response` table of `mk_header.c`. -/
def statusResponse : List Int :=
  [200, 404, 100, 101, 201, 202, 203, 204, 205, 206, 300, 301, 302, 303, 304, 305,
   400, 401, 402, 403, 405, 406, 407, 408, 409, 410, 411, 412, 413, 414, 415,
   500, 501, 502, 503, 504, 505]

/-! ## configuration -/

/-- `struct error_page`. -/
structure ErrorPage where
  status : Int
  realPath : Bytes
deriving DecidableEq, Repr

/-- `struct host`, without the fields that belong to the logger and to the plugins: what a log or a
plugin keeps of a host is in the module of that plugin, by the place of the host. -/
structure Host where
  serverNames : List Bytes := []
  documentroot : Bytes := []
  hostSignature : Bytes := []
  errorPages : List ErrorPage := []
deriving DecidableEq, Repr

/-- The fields of `struct server_config` that the modelled code reads.
`config->hosts` always holds a default host, kept apart as `defaultHost`.  What is read once at
the start is left out, as is the constant text of the `Server` field.  Nothing changes the
configuration while requests are served, so it is an argument and not part of a state. -/
structure Config where
  workerCapacity : UInt32
  workers : Nat
  timeout : Int
  keepAliveTimeout : Int
  keepAlive : Bool
  maxKeepAliveRequest : Int
  maxRequestSize : Int
  resume : Bool
  symlink : Bool
  standardPort : Int
  transport : Bytes
  userDir : Option Bytes
  indexFiles : List Bytes
  defaultHost : Host
  hosts : List Host

/-! ## requests -/

/-- `struct file_info`; a request starts with size `-1` and every flag off. -/
structure FileInfo where
  size : Int := -1
  lastModification : Int := 0
  fileExists : Bool := false
  isFile : Bool := false
  isLink : Bool := false
  isDirectory : Bool := false
  execAccess : Bool := false
  readAccess : Bool := false
deriving DecidableEq, Repr

/-- `struct response_headers` after `mk_header_response_reset`.  `ranges` are
the two C `int`s of the requested range.  `custom_status` and `content_encoding` are left out,
because nothing sets them (what they would add is in `Monkey.Http.HeaderText`), and so are `cgi`
and `breakline`, by which the empty line behind the block is left to a plugin: each plugin always
sets them the same way.  `extraRows` is the vector of a plugin. -/
structure ResponseHeaders where
  status : Int := 0
  contentLength : Int := -1
  realLength : Int := 0
  ranges0 : Int := -1
  ranges1 : Int := -1
  connection : Int := 0
  transferEncoding : Int := -1
  lastModified : Int := -1
  contentType : Bytes := []
  location : Option Bytes := none
  extraRows : List Bytes := []
deriving DecidableEq, Repr

/-- A row of `struct headers_toc`: the bytes from `init` on, `end - init`, and
whether a lookup has consumed it. -/
structure HeaderTocRow where
  init : Bytes
  len : Nat
  found : Bool := false
deriving DecidableEq, Repr

/-- `struct session_request`; the default value is what `mk_request_init`
leaves.  `fdFile` is the path that was opened and not its descriptor, and `handledBy` is whether a
plugin has taken the request and not which one.  A request is known by its position in the list
of its session. -/
structure SessionRequest where
  body : MkPointer := {}
  headersToc : List HeaderTocRow := []
  method : Method := .unknown
  uri : MkPointer := {}
  uriProcessed : MkPointer := {}
  queryString : MkPointer := {}
  protocol : Protocol := .unset
  closeNow : Bool := false
  keepAlive : Bool := false
  connection : MkPointer := {}
  host : MkPointer := {}
  hostPort : MkPointer := {}
  port : Int := 0
  range : MkPointer := {}
  ifModifiedSince : MkPointer := {}
  contentType : MkPointer := {}
  contentLength : Int := 0
  data : MkPointer := {}
  realPath : Bytes := []
  userHome : Bool := false
  stage30Blocked : Bool := false
  loop : Nat := 0
  bytesToSend : Int := -1
  bytesOffset : Int := 0
  fdFile : Option Bytes := none
  fileInfo : FileInfo := {}
  hostConf : Host := {}
  headers : ResponseHeaders := {}
  handledBy : Bool := false
deriving DecidableEq, Repr

/-- `struct client_session`.  `body` holds the `body_length` bytes received,
`bodyFixed` is the test `cs->body == cs->body_fixed`.  What lies in the buffer behind the bytes
received is not part of a session: where the code reads on into it, the module about that read
has the memory as a parameter. -/
structure ClientSession where
  pipelined : Bool := false
  socket : Int
  counterConnections : Int := 0
  status : RequestStatus := .incomplete
  body : Bytes := []
  bodyFixed : Bool := true
  bodySize : Nat
  bodyPosEnd : Int := -1
  firstMethod : Method := .unknown
  initTime : Int
  requestList : List SessionRequest := []
deriving DecidableEq, Repr

/-- `cs->body_length`. -/
def ClientSession.bodyLength (cs : ClientSession) : Nat := cs.body.length

/-! ## what the outside world answers -/

/-- `lstat`, and `stat` when the path is a symbolic link. -/
inductive StatResult
  | fail (eacces : Bool)
  | brokenLink
  | ok (link : Bool) (size mtime : Int) (directory readable executable : Bool)
deriving DecidableEq, Repr

/-- The four values a stage 30 hook may return. -/
inductive Stage30Ret
  | notMe | finish | closeConx | continue
deriving DecidableEq, Repr

/-- What a stage 30 hook returns and the fields of the request it may have
overwritten. -/
structure Stage30Answer where
  ret : Stage30Ret
  status : Option Int := none
  extraRows : List Bytes := []
  realPath : Option Bytes := none
  fileInfo : Option FileInfo := none
  blocked : Bool := false
  handled : Bool := false

/-- The answers of the operating system and the plugins while one request list
is served.  `sendFile node n count` is what the `n`-th `mk_socket_send_file`
for the node at position `node` returns when asked for `count` bytes;
`nullDiff` is the unspecified value of `NULL - p` as an `int`.

They are functions, so that within one walk over the list a file answers the same each time it
is asked; between two walks everything may change, for each write event brings its own `Sys`.
That memory is short is not among the answers. -/
structure Sys where
  stat : Bytes → StatResult
  openFile : Bytes → Bool
  access : Bytes → Bool
  readlink : Bytes → Bool
  getpwnam : Bytes → Option Bytes
  gmt2utime : Bytes → Int
  mimetype : Bytes → Bytes
  logCurrentUtime : Int
  stage20 : List (SessionRequest → Bool)
  stage30 : List (SessionRequest → Stage30Answer)
  sendFile : Nat → Nat → Int → Int
  nullDiff : Int

/-! ## what is written to the client -/

/-- The `Connection` field of a response header. -/
inductive ConnectionField
  | none | keepAlive (max : Int) | close
deriving DecidableEq, Repr

/-- A response header block as `mk_header_send` assembles it; `none` is a field
that is not written. -/
structure HeaderBlock where
  status : Int
  lastModified : Option Int
  connection : ConnectionField
  location : Option Bytes
  contentType : Option Bytes
  chunked : Bool
  contentLength : Option Int
  contentRange : Option (Int × Int × Int)
  extraRows : List Bytes
deriving DecidableEq, Repr

/-- One observable action on behalf of a request.  A header is kept as the block it is made of,
and a piece of a file by its place: which bytes these are on the wire is said in
`Monkey.Http.HeaderText` and `Monkey.Request.Responses`. -/
inductive Out
  | process
  | header (h : HeaderBlock)
  | page (text : Bytes)
  | file (offset count : Int)
  | stage40
  | bug
deriving DecidableEq, Repr

/-- A request function's result: return value, updated request, and what it
wrote, in order. -/
structure Res where
  ret : Int
  sr : SessionRequest
  out : List Out := []

/-- A result after some earlier output. -/
def Res.after (out : List Out) (r : Res) : Res := { r with out := out ++ r.out }

/-- The surroundings of a request while it is served: its session, the nodes of
the request list after it, and its position in the list.  Of the nodes before it nothing is
needed: the code asks of the others only whether the last one closes the connection. -/
structure Ctx where
  cfg : Config
  sys : Sys
  cs : ClientSession
  rest : List SessionRequest
  node : Nat

/-! ## a small server

One worker of two slots whose files are all readable and hold a hundred bytes;
the concrete runs below take place on it. -/

def sampleConfig : Config where
  workerCapacity := 2
  workers := 1
  timeout := 15
  keepAliveTimeout := 5
  keepAlive := true
  maxKeepAliveRequest := 50
  maxRequestSize := 32768
  resume := true
  symlink := false
  standardPort := 80
  transport := ascii "http".toList
  userDir := none
  indexFiles := []
  defaultHost := { documentroot := ascii "/srv".toList }
  hosts := []

def sampleSys : Sys where
  stat := fun _ => .ok false 100 1 false true false
  openFile := fun _ => true
  access := fun _ => true
  readlink := fun _ => true
  getpwnam := fun _ => none
  gmt2utime := fun _ => 0
  mimetype := fun _ => ascii "text/plain\r\n".toList
  logCurrentUtime := 1000
  stage20 := []
  stage30 := []
  sendFile := fun _ _ count => count
  nullDiff := 0

def sampleSession : ClientSession := { socket := 5, bodySize := 4096, initTime := 0 }

/-- The surroundings of a single request. -/
def sampleCtx : Ctx := ⟨sampleConfig, sampleSys, sampleSession, [], 0⟩

/-- A complete request without a body. -/
def sampleRequest : Bytes := ascii "GET /a HTTP/1.1\r\nHost: a\r\n\r\n".toList

end Monkey
