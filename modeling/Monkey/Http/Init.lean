import Monkey.Request.Headers
import Monkey.Http.Range
import Monkey.Http.Header

/-!
# Monkey.Http.Init

Serving one request: `mk_request_process` and everything below it —
`mk_request_error`, `mk_user_init`, `mk_method_parse_data`, the path composition,
plugin stages 20 and 30, the directory redirect and index lookup, and the tail of
`mk_http_init` that writes the header and starts the file.

Each function returns a `Res`: its return value, the updated request and what it
wrote to the client.  Memory exhaustion is not modelled here.

The order of the source is kept in what is asked and in what is written, since an answer may
be written before a later test fails.  A request is followed until the function returns; the
rest of a file that is being sent then belongs to `Monkey.Request.Write`.
-/

namespace Monkey

/-! ## files -/

/-- `mk_file_get_info`: on a failed `lstat` only `exists` is written. -/
def mkFileGetInfo (sys : Sys) (path : Bytes) (info : FileInfo) : Int × FileInfo :=
  match sys.stat path with
  | .fail eacces => (-1, { info with fileExists := eacces })
  | .brokenLink =>
      (-1, { info with
        fileExists := true, isFile := false, isLink := true, isDirectory := false,
        execAccess := false, readAccess := false })
  | .ok link size mtime directory readable executable =>
      (0, {
        size := size, lastModification := mtime, fileExists := true,
        isFile := !link && !directory, isLink := link, isDirectory := directory,
        execAccess := executable, readAccess := readable })

/-- `mk_http_send_file`: the remaining count is returned as an `int`. -/
def mkHttpSendFile (ctx : Ctx) (sr : SessionRequest) : Res :=
  let nbytes := ctx.sys.sendFile ctx.node sr.loop sr.bytesToSend
  if nbytes > 0 then
    let sr' := { sr with
      bytesToSend := sr.bytesToSend - nbytes, bytesOffset := sr.bytesOffset + nbytes,
      loop := sr.loop + 1 }
    ⟨toInt sr'.bytesToSend, sr', [.file sr.bytesOffset nbytes]⟩
  else if nbytes < 0 then ⟨exitAbort, { sr with loop := sr.loop + 1 }, []⟩
  else ⟨toInt sr.bytesToSend, { sr with loop := sr.loop + 1 }, []⟩

/-- `mk_http_send_file` when the socket takes something. -/
theorem mkHttpSendFile_eq {ctx : Ctx} {sr : SessionRequest} {k : Int}
    (hk : ctx.sys.sendFile ctx.node sr.loop sr.bytesToSend = k) (h : 0 ≤ k) :
    mkHttpSendFile ctx sr =
      ⟨toInt (sr.bytesToSend - k), { sr with
          bytesToSend := sr.bytesToSend - k, bytesOffset := sr.bytesOffset + k
          loop := sr.loop + 1 },
        if 0 < k then [.file sr.bytesOffset k] else []⟩ := by
  unfold mkHttpSendFile
  simp only [hk]
  by_cases hpos : k > 0
  · rw [if_pos hpos, if_pos hpos]
  · obtain rfl : k = 0 := by omega
    rw [if_neg hpos, if_neg (by decide), if_neg hpos, sub_zero, add_zero]

/-- A failed send only counts the turn. -/
theorem mkHttpSendFile_failed {ctx : Ctx} {sr : SessionRequest}
    (h : ctx.sys.sendFile ctx.node sr.loop sr.bytesToSend < 0) :
    mkHttpSendFile ctx sr = ⟨exitAbort, { sr with loop := sr.loop + 1 }, []⟩ := by
  unfold mkHttpSendFile
  simp only
  rw [if_neg (by omega), if_pos h]

/-! ## error responses -/

/-- `MK_REQUEST_DEFAULT_PAGE`, filled in. -/
def mkRequestSetDefaultPage (title : String) (message signature : Bytes) : Bytes :=
  let lit := fun s : String => ascii s.toList
  lit "<HTML><HEAD><STYLE type=\"text/css\"> body \x7bfont-size: 12px;\x7d </STYLE></HEAD><BODY><H1>" ++
    lit title ++ lit "</H1>" ++ message ++ lit "<BR><HR><ADDRESS>Powered by " ++ signature ++
    lit "</ADDRESS></BODY></HTML>"

/-- The default page of `mk_request_error`, by status. -/
def defaultPage (httpStatus : Int) (sr : SessionRequest) : Option Bytes :=
  let page := fun title message =>
    some (mkRequestSetDefaultPage title message sr.hostConf.hostSignature)
  if httpStatus = mkClientBadRequest then page "Bad Request" sr.uri.text
  else if httpStatus = mkClientForbidden then page "Forbidden" sr.uri.text
  else if httpStatus = mkClientNotFound then
    page "Not Found" (ascii "The requested URL was not found on this server.".toList)
  else if httpStatus = mkClientRequestEntityTooLarge then
    page "Entity too large" (ascii "The request entity is too large.".toList)
  else if httpStatus = mkClientMethodNotAllowed then page "Method Not Allowed" sr.uri.text
  else if httpStatus = mkClientRequestTimeout then none
  else if httpStatus = mkClientLengthRequired then none
  else if httpStatus = mkServerNotImplemented then page "Method Not Implemented" sr.uri.text
  else if httpStatus = mkServerInternalError then page "Internal Server Error" sr.uri.text
  else if httpStatus = mkServerHttpVersionUnsup then page "HTTP Version Not Supported" []
  else none

/-- The statuses for which no customized page is looked up. -/
def plainStatus (httpStatus : Int) : Bool :=
  httpStatus == mkClientLengthRequired || httpStatus == mkClientBadRequest ||
    httpStatus == mkClientRequestEntityTooLarge

/-- The customized error page `mk_request_error` sends: the first entry for the
status, provided its file exists and opens. -/
def errorPageFile (sys : Sys) (httpStatus : Int) (sr : SessionRequest) :
    Option (Bytes × FileInfo) :=
  if plainStatus httpStatus then none
  else
    match sr.hostConf.errorPages.find? fun e => e.status == httpStatus with
    | none => none
    | some entry =>
        let (ret, info) := mkFileGetInfo sys entry.realPath {}
        if ret = -1 then none
        else if sys.openFile entry.realPath then some (entry.realPath, info)
        else none

/-- `mk_request_error`: a customized page of the host if its file opens, else the default page of
the status.  A customized page is sent as a file, which may go on in later write events; a default
page is written at once. -/
def mkRequestError (ctx : Ctx) (httpStatus : Int) (sr : SessionRequest) : Res :=
  let sr := { sr with headers := { sr.headers with status := httpStatus } }
  match errorPageFile ctx.sys httpStatus sr with
  | some (path, info) =>
      let sr := { sr with
        fdFile := some path, bytesToSend := info.size, fileInfo := info,
        headers := { sr.headers with contentLength := info.size, realLength := info.size } }
      let h := mkHeaderSend ctx sr
      (mkHttpSendFile ctx h.sr).after h.out
  | none =>
      let page := defaultPage httpStatus sr
      let sr := { sr with
        headers := { sr.headers with
          contentLength := page.elim sr.headers.contentLength fun p => (p.length : Int),
          location := none, lastModified := -1,
          contentType := page.elim [] fun _ => ascii "text/html\r\n".toList } }
      let h := mkHeaderSend ctx sr
      let text := match page with
        | some p => if sr.method = .head then [] else [Out.page p]
        | none => []
      ⟨exitError, h.sr, h.out ++ text⟩

/-! ## user directories and posted data -/

/-- `mk_user_init`: an unknown user is answered here, before the caller answers
too.  The name and the rest of the URI are taken as what the two copies hold; how far the search
for the slash and the copies reach in memory is the subject of `Monkey.Http.UserDir`. -/
def mkUserInit (ctx : Ctx) (sr : SessionRequest) : Res :=
  let data := sr.uriProcessed.data.getD []
  let len : Int := sr.uriProcessed.len
  if len ≤ 2 then ⟨-1, sr, []⟩
  else
    let slash := mkStringCharSearch (data.drop 2) 0x2f (toInt len)
    let limit := if slash = -1 then toInt (len - 2) else slash
    if limit + 2 ≥ 255 then ⟨-1, sr, []⟩
    else
      match ctx.sys.getpwnam (cstr ((data.drop 2).take limit.toNat)) with
      | none =>
          let e := mkRequestError ctx mkClientNotFound sr
          ⟨-1, e.sr, e.out⟩
      | some pwDir =>
          let home := pwDir ++ [0x2f] ++ ctx.cfg.userDir.getD []
          let rest :=
            if len > 2 + limit then
              cstr ((data.drop (limit.toNat + 2)).take (len - 2 - limit).toNat)
            else []
          ⟨0, { sr with realPath := home ++ rest, userHome := true }, []⟩

/-- `mk_method_validate_content_length`. -/
def mkMethodValidateContentLength (body : Bytes) (bodyLen : Int) : Int :=
  match (mkRequestHeaderGet (mkRequestHeaderTocParse body bodyLen) rhContentLength).1.data with
  | some value => strtol value
  | none =>
      let posHeader := mkStringSearchI body rhContentLength
      if posHeader ≤ 0 then -1
      else
        let posCrlf := mkStringSearch (body.drop posHeader.toNat) mkCrlf
        if posCrlf ≤ 0 then -1
        else
          strtol ((mkStringCopySubstr (body.drop (posHeader.toNat + rhContentLength.length + 1)) 0
            (posHeader + posCrlf)).getD [])

/-- `mk_method_parse_data`. -/
def mkMethodParseData (ctx : Ctx) (sr : SessionRequest) : Res :=
  let length := mkMethodValidateContentLength ctx.cs.body ctx.cs.bodyLength
  let fail := fun status =>
    let e := mkRequestError ctx status sr
    { e with ret := -1 }
  if length = -1 then fail mkClientLengthRequired
  else if length ≤ 0 then fail mkClientBadRequest
  else if length ≥ ctx.cs.bodySize then fail mkClientRequestEntityTooLarge
  else
    let (contentType, toc) := mkRequestHeaderGet sr.headersToc rhContentType
    if contentType.data = none then
      let e := mkRequestError ctx mkClientBadRequest { sr with headersToc := toc }
      { e with ret := -1 }
    else
      ⟨0, { sr with headersToc := toc, contentType := contentType, contentLength := toInt length }, []⟩

/-! ## plugin stages -/

/-- `mk_plugin_stage_run(MK_PLUGIN_STAGE_20, ..)`: whether some plugin closes. -/
def mkPluginStage20 (sys : Sys) (sr : SessionRequest) : Bool := sys.stage20.any fun s20 => s20 sr

/-- The request after a stage 30 hook. -/
def Stage30Answer.apply (a : Stage30Answer) (sr : SessionRequest) : SessionRequest :=
  { sr with
    realPath := a.realPath.getD sr.realPath
    fileInfo := a.fileInfo.getD sr.fileInfo
    stage30Blocked := sr.stage30Blocked || a.blocked
    handledBy := sr.handledBy || a.handled
    headers := { sr.headers with
      status := a.status.getD sr.headers.status
      extraRows := sr.headers.extraRows ++ a.extraRows } }

/-- The loop over the stage 30 plugins. -/
def stage30Loop : List (SessionRequest → Stage30Answer) → SessionRequest →
    Stage30Ret × SessionRequest
  | [], sr => (.notMe, sr)
  | s30 :: stm, sr =>
      let a := s30 sr
      match a.ret with
      | .notMe => stage30Loop stm (a.apply sr)
      | ret => (ret, a.apply sr)

/-- `mk_plugin_stage_run(MK_PLUGIN_STAGE_30, ..)`: a request already taken is not
offered again.  What a plugin does besides answering, to its own memory and to the socket, is
left to the modules of the plugins; that this loop is the one over the loaded plugins is shown
in `Monkey.Plugins.Hooks`. -/
def mkPluginStage30 (sys : Sys) (sr : SessionRequest) : Stage30Ret × SessionRequest :=
  if sr.handledBy then (.notMe, sr) else stage30Loop sys.stage30 sr

/-! ## mk_http_init -/

/-- The status `mk_http_init` answers with when a plugin closes the connection. -/
def closeStatus (sr : SessionRequest) : Int :=
  if sr.headers.status > 0 then sr.headers.status else mkClientForbidden

/-- `mk_http_directory_redirect_check`; `none` is its `return 0`. -/
def mkHttpDirectoryRedirectCheck (ctx : Ctx) (sr : SessionRequest) : Option Res :=
  let uri := sr.uriProcessed.text
  if uri.getLast? = some 0x2f then none
  else
    let port := if sr.host.data.isSome ∧ sr.port > 0 ∧ sr.port ≠ ctx.cfg.standardPort then
        ascii (':' :: (toString (toInt sr.port)).toList) else []
    let location :=
      ctx.cfg.transport ++ ascii [':', '/', '/'] ++ cstr sr.host.text ++ port ++
        cstr uri ++ [0x2f]
    let h := mkHeaderSend ctx { sr with
      headers := { sr.headers with
        status := mkRedirMoved, contentLength := 0, contentType := [], location := some location } }
    some ⟨-1, { h.sr with headers := { h.sr.headers with location := none } }, h.out⟩

/-- `MAX_PATH`. -/
def maxPath : Nat := 1024

/-- `mk_request_index`: the first index file that exists, its path cut to the
buffer. -/
def mkRequestIndex (ctx : Ctx) (pathfile : Bytes) : Option Bytes :=
  (ctx.cfg.indexFiles.map fun entry => (cstr pathfile ++ entry).take (maxPath - 1)).find?
    ctx.sys.access

/-- The path of the request: document root and processed URI, unless
`mk_user_init` has set it. -/
def composeRealPath (sr : SessionRequest) : SessionRequest :=
  if sr.userHome then sr
  else { sr with realPath := sr.hostConf.documentroot ++ sr.uriProcessed.text }

/-- The `Range` step of `mk_http_init`: `none` when the range is refused. -/
def rangeStep (cfg : Config) (sr : SessionRequest) : Option SessionRequest :=
  if sr.range.data.isSome ∧ cfg.resume = true then
    match mkHttpRangeParse sr with
    | (ret, sr) =>
        if ret < 0 then none
        else if sr.headers.ranges0 ≥ 0 ∨ sr.headers.ranges1 ≥ 0 then
          some { sr with headers := { sr.headers with status := mkHttpPartial } }
        else some sr
  else some sr

/-- Whether a conditional GET finds the file unchanged. -/
def notModified (sys : Sys) (sr : SessionRequest) : Bool :=
  match sr.ifModifiedSince.data with
  | none => false
  | some date =>
      let dateClient := sys.gmt2utime date
      sr.method == .get && decide (sr.fileInfo.lastModification ≤ dateClient ∧
        dateClient > 0 ∧ dateClient ≤ sys.logCurrentUtime)

/-- The end of `mk_http_init`: send the header, then the window of the file.  The
window is checked after the header is out. -/
def mkHttpInitTail (ctx : Ctx) (sr : SessionRequest) : Res :=
  let h := mkHeaderSend ctx sr
  if h.sr.headers.contentLength = 0 then { h with ret := 0 }
  else if h.sr.method = .get ∨ h.sr.method = .post then
    match mkHttpRangeSet ctx.cfg h.sr.fileInfo.size h.sr with
    | (ret, sr) =>
        if ret ≠ 0 then (mkRequestError ctx mkClientBadRequest sr).after h.out
        else (mkHttpSendFile ctx sr).after h.out
  else { h with ret := 0 }

/-- `mk_http_init` from the opening of the file on. -/
def mkHttpInitSend (ctx : Ctx) (sr : SessionRequest) : Res :=
  if sr.fileInfo.size > 0 then
    if ctx.sys.openFile (cstr sr.realPath) then
      mkHttpInitTail ctx { sr with fdFile := some (cstr sr.realPath) }
    else mkRequestError ctx mkClientForbidden sr
  else mkHttpInitTail ctx sr

/-- The range of a GET or HEAD request, and what follows it. -/
def mkHttpInitRange (ctx : Ctx) (sr : SessionRequest) : Res :=
  match rangeStep ctx.cfg sr with
  | none => mkRequestError ctx mkClientBadRequest (mkHttpRangeParse sr).2
  | some sr => mkHttpInitSend ctx sr

/-- `mk_http_init` from the status 200 on: content length, content type and
range. -/
def mkHttpInitOk (ctx : Ctx) (sr : SessionRequest) : Res :=
  let sr := { sr with
    headers := { sr.headers with
      status := mkHttpOk, location := none,
      contentLength := sr.fileInfo.size, realLength := sr.fileInfo.size } }
  if sr.method = .get ∨ sr.method = .head then
    mkHttpInitRange ctx { sr with
      headers := { sr.headers with contentType := ctx.sys.mimetype sr.realPath } }
  else mkHttpInitSend ctx { sr with headers := { sr.headers with contentType := [] } }

/-- `mk_http_init` after the plugins: method, permissions, size and conditional
GET. -/
def mkHttpInitServe (ctx : Ctx) (sr : SessionRequest) : Res :=
  if sr.method = .put ∨ sr.method = .delete ∨ sr.method = .unknown then
    mkRequestError ctx mkServerNotImplemented sr
  else if sr.fileInfo.readAccess = false then mkRequestError ctx mkClientForbidden sr
  else if sr.fileInfo.isDirectory = true then mkRequestError ctx mkClientForbidden sr
  else if sr.fileInfo.size < 0 then mkRequestError ctx mkClientNotFound sr
  else
    let sr := { sr with
      headers := { sr.headers with lastModified := sr.fileInfo.lastModification } }
    if notModified ctx.sys sr then
      { mkHeaderSend ctx { sr with headers := { sr.headers with status := mkNotModified } } with
        ret := exitNormal }
    else mkHttpInitOk ctx sr

/-- The second stage 30 run of `mk_http_init`, skipped when a plugin has
blocked it. -/
def mkHttpInitStage30 (ctx : Ctx) (sr : SessionRequest) : Res :=
  if sr.stage30Blocked then mkHttpInitServe ctx sr
  else
    match mkPluginStage30 ctx.sys sr with
    | (.continue, sr) => ⟨mkPluginRetContinue, sr, []⟩
    | (.closeConx, sr) => mkRequestError ctx (closeStatus sr) sr
    | (.finish, sr) => ⟨exitNormal, sr, []⟩
    | (.notMe, sr) => mkHttpInitServe ctx sr

/-- The symbolic link check of `mk_http_init`. -/
def mkHttpInitLink (ctx : Ctx) (sr : SessionRequest) : Res :=
  if sr.fileInfo.isLink = true ∧ (ctx.cfg.symlink = false ∨ ctx.sys.readlink (cstr sr.realPath) = false)
  then mkRequestError ctx mkClientForbidden sr
  else mkHttpInitStage30 ctx sr

/-- `mk_http_init` once the resource is known: redirect a directory without its
slash, look for an index file. -/
def mkHttpInitFound (ctx : Ctx) (sr : SessionRequest) : Res :=
  if sr.fileInfo.isDirectory = true then
    match mkHttpDirectoryRedirectCheck ctx sr with
    | some r => r
    | none =>
        match mkRequestIndex ctx sr.realPath with
        | some path =>
            mkHttpInitLink ctx { sr with
              realPath := path, fileInfo := (mkFileGetInfo ctx.sys path sr.fileInfo).2 }
        | none => mkHttpInitLink ctx sr
  else mkHttpInitLink ctx sr

/-- `HTTP_DIRECTORY_BACKWARD`. -/
def httpDirectoryBackward : Bytes := [0x2e, 0x2e]

/-- `mk_http_init`: the path, the test for `..`, the file, the plugins, and then by what was found
the functions above.  The source is one function that returns from its middle; here each part
that follows a return is a function of its own, in the order of the source from the end to the
beginning.  The trace output is left out, and memory is never short, so that the path is always
composed. -/
def mkHttpInit (ctx : Ctx) (sr : SessionRequest) : Res :=
  let sr := composeRealPath sr
  let uri := sr.uriProcessed
  if (memmem (uri.data.getD []) uri.len httpDirectoryBackward).isSome then
    mkRequestError ctx mkClientForbidden sr
  else
    match mkFileGetInfo ctx.sys (cstr sr.realPath) sr.fileInfo with
    | (ret, info) =>
        let sr := { sr with fileInfo := info }
        if ret = 0 then mkHttpInitFound ctx sr
        else
          match mkPluginStage30 ctx.sys sr with
          | (.closeConx, sr) => mkRequestError ctx (closeStatus sr) sr
          | (.continue, sr) => ⟨mkPluginRetContinue, sr, []⟩
          | (.finish, sr) => ⟨exitNormal, sr, []⟩
          | (.notMe, sr) =>
              if sr.fileInfo.fileExists = false then mkRequestError ctx mkClientNotFound sr
              else if sr.stage30Blocked = false then mkRequestError ctx mkClientForbidden sr
              else mkHttpInitFound ctx sr

/-! ## mk_request_process -/

/-- Whether the request is for a user's home directory (`/~`). -/
def isUserHome (cfg : Config) (sr : SessionRequest) : Bool :=
  cfg.userDir.isSome && decide (sr.uriProcessed.len > 2) &&
    (sr.uriProcessed.data.getD [])[1]? == some 0x7e

/-- `mk_request_process` from the stage 20 hook on. -/
def mkRequestProcessHttp (ctx : Ctx) (sr : SessionRequest) : Res :=
  if mkPluginStage20 ctx.sys sr then ⟨exitAbort, sr, []⟩ else mkHttpInit ctx sr

/-- `mk_request_process` from the method check on. -/
def mkRequestProcessMethod (ctx : Ctx) (sr : SessionRequest) : Res :=
  if sr.method = .post ∨ sr.method = .put then
    let r := mkMethodParseData ctx sr
    if r.ret ≠ 0 then r else (mkRequestProcessHttp ctx r.sr).after r.out
  else mkRequestProcessHttp ctx sr

/-- `mk_request_process`: the header fields, the checks on them, the host, the home directory, the
method, stage 20 and the file.  An answer written on the way is kept in front of what follows it,
so that a request answered twice shows two headers. -/
def mkRequestProcess (ctx : Ctx) (sr : SessionRequest) : Res :=
  let sr := { sr with hostConf := ctx.cfg.defaultHost }
  match mkRequestHeaderProcess ctx.cfg ctx.sys sr with
  | (status, sr) =>
      if status < 0 then { mkRequestError ctx mkClientBadRequest sr with ret := exitAbort }
      else
        let sr := { sr with userHome := false }
        if (sr.uriProcessed.data.getD []).head? ≠ some 0x2f then
          { mkRequestError ctx mkClientBadRequest sr with ret := exitNormal }
        else if sr.host.data = none ∧ sr.protocol = .http11 then
          { mkRequestError ctx mkClientBadRequest sr with ret := exitNormal }
        else if sr.protocol = .unknown then
          { mkRequestError ctx mkServerHttpVersionUnsup sr with ret := exitAbort }
        else
          let sr := match sr.host.data with
            | some _ => { sr with hostConf := (mkConfigHostFind ctx.cfg sr.host).getD sr.hostConf }
            | none => sr
          if isUserHome ctx.cfg sr then
            let u := mkUserInit ctx sr
            if u.ret ≠ 0 then
              { (mkRequestError ctx mkClientNotFound u.sr).after u.out with ret := exitAbort }
            else (mkRequestProcessMethod ctx u.sr).after u.out
          else mkRequestProcessMethod ctx sr

end Monkey
