import Monkey.Http.Framing

/-!
# Monkey.Embed.DataCallback

The data callback of an embedding program: stage 30 of a library asks it for the status, the rows and the
content of an answer (`mk_plugin_stage_run`), and sends these itself.  The loop that sends the content
begins again at its first byte after every call of `socket_send`.

The program is a function from what it is told to what it answers.  How much of the content the socket
takes in each call is an argument, and so is whether a call fails.
-/

namespace Monkey

/-! ## the code -/

/-- `bufsize`. -/
def bufsize : Nat := 256

def mklibFalse : Int := 0
def mklibTrue : Int := 1
def pluginRetEnd : Int := 200

/-- What the callback is told: the name of the host, the URL as far as it fits, the query and the data. -/
structure DataArgs where
  vhost : Bytes
  url : Bytes
  get : Option Bytes
  post : Option Bytes
deriving DecidableEq, Repr

/-- What it answers: `content` has `clen` bytes, and `header` is its buffer. -/
structure DataAnswer where
  ret : Int
  status : Nat := 200
  content : Bytes := []
  header : Bytes := [0]
deriving DecidableEq, Repr

def MkPointer.copied (p : MkPointer) : Option Bytes := p.data.map fun d => d.take p.len

def dataArgs (file : Bytes) (sr : SessionRequest) : DataArgs where
  vhost := file
  url := cstr ((sr.uri.data.getD []).take (min sr.uri.len (bufsize - 1)))
  get := sr.queryString.copied
  post := sr.data.copied

/-- Headers with another status, another length and more rows. -/
def ResponseHeaders.answered (h : ResponseHeaders) (status length : Int) (rows : Bytes) : ResponseHeaders :=
  { h with
    status := status
    contentLength := length
    extraRows := if 0 < rows.length then h.extraRows ++ [rows, mkIovCrlf] else h.extraRows }

/-- The request with the status, the length and the rows of the answer. -/
def SessionRequest.answered (sr : SessionRequest) (a : DataAnswer) : SessionRequest :=
  { sr with headers := sr.headers.answered (toInt a.status) a.content.length (cstr a.header) }

/-- What a call of `socket_send` comes to: some bytes are taken, or none for now (`EAGAIN`), or it fails. -/
inductive SendRet
  | sent (n : Nat)
  | again
  | failed
deriving DecidableEq, Repr

/-- The loop with `clen` bytes left: the bytes that are taken, and whether it came to its end. -/
def sendContent (content : Bytes) : Nat → List SendRet → Option (Bytes × Bool)
  | 0, _ => some ([], true)
  | _ + 1, [] => none
  | clen + 1, .sent n :: sends =>
      -- only `clen` goes down, `content` stays where it is
      let n := min n (clen + 1)
      (sendContent content (clen + 1 - n) sends).map fun r => (content.take n ++ r.1, r.2)
  | clen + 1, .again :: sends => sendContent content (clen + 1) sends
  | _ + 1, .failed :: _ => some ([], false)

/-- The part of `mk_plugin_stage_run` behind the plugins of stage 30, where a program has set a data callback:
what it returns, and the bytes that are taken. -/
def mkPluginStageData (w : HeaderThread) (ctx : Ctx) (dataf : DataArgs → DataAnswer) (file : Bytes)
    (sr : SessionRequest) (sends : List SendRet) : Option (Int × Bytes) :=
  let a := dataf (dataArgs file sr)
  if a.ret = mklibFalse then some (-1, [])
  else do
    let header ← mkHeaderSendText w (headerBlock ctx (sr.answered a)) true
    let (body, through) ← sendContent a.content a.content.length sends
    some (if through ∧ a.ret = mklibTrue then pluginRetEnd else -1, header ++ body)

/-! ## the content -/

/-- The number of bytes of each piece. -/
def pieces : Nat → List SendRet → List Nat
  | 0, _ => []
  | _ + 1, [] => []
  | clen + 1, .sent n :: sends => min n (clen + 1) :: pieces (clen + 1 - min n (clen + 1)) sends
  | clen + 1, .again :: sends => pieces (clen + 1) sends
  | _ + 1, .failed :: _ => []

/-- A text that is cut into pieces of some lengths from an offset on begins again with each of them. -/
def BeginsAgain (content : Bytes) : Nat → List Nat → Prop
  | _, [] => True
  | offset, n :: ns => content.take n = (content.drop offset).take n ∧ BeginsAgain content (offset + n) ns

instance BeginsAgain.decidable (content : Bytes) : (offset : Nat) → (ns : List Nat) →
    Decidable (BeginsAgain content offset ns)
  | _, [] => .isTrue trivial
  | offset, n :: ns =>
      haveI := BeginsAgain.decidable content (offset + n) ns
      inferInstanceAs (Decidable (_ ∧ _))

/-- Pieces from the first byte on, against those from where the last one ended. -/
theorem flatMap_take_eq_iff {content : Bytes} {offset : Nat} {ns : List Nat} (h : offset + ns.sum = content.length) :
    ns.flatMap content.take = content.drop offset ↔ BeginsAgain content offset ns := by
  induction ns generalizing offset with
  | nil =>
      rw [List.sum_nil, Nat.add_zero] at h
      rw [h, List.drop_length]
      exact iff_of_true rfl trivial
  | cons n ns ih =>
      rw [List.sum_cons] at h
      -- both texts are cut at the end of the first piece
      have hcut : content.drop offset = (content.drop offset).take n ++ content.drop (offset + n) := by
        rw [← List.drop_drop, List.take_append_drop]
      have hlength : (content.take n).length = ((content.drop offset).take n).length := by
        rw [List.length_take, List.length_take, List.length_drop]
        omega
      rw [List.flatMap_cons, hcut, BeginsAgain, ← @ih (offset + n) (by omega)]
      exact ⟨fun h => List.append_inj h hlength, fun h => congrArg₂ (· ++ ·) h.1 h.2⟩

/-- What the loop has sent when it is through. -/
theorem sendContent_through {content body : Bytes} {clen : Nat} {sends : List SendRet}
    (h : sendContent content clen sends = some (body, true)) :
    body = (pieces clen sends).flatMap content.take ∧ (pieces clen sends).sum = clen := by
  induction sends generalizing clen body with
  | nil =>
      cases clen with
      | zero =>
          obtain ⟨rfl, -⟩ := Prod.mk.inj (Option.some.inj h)
          exact ⟨rfl, rfl⟩
      | succ clen => cases h
  | cons r sends ih =>
      cases clen with
      | zero =>
          obtain ⟨rfl, -⟩ := Prod.mk.inj (Option.some.inj h)
          exact ⟨rfl, rfl⟩
      | succ clen =>
          cases r with
          | sent n =>
              obtain ⟨⟨rest, through⟩, hrest, heq⟩ := Option.map_eq_some_iff.mp h
              obtain ⟨rfl, rfl⟩ := Prod.mk.inj heq
              obtain ⟨rfl, hsum⟩ := ih hrest
              refine ⟨by rw [pieces, List.flatMap_cons], ?_⟩
              rw [pieces, List.sum_cons, hsum]
              omega
          | again => exact ih h
          | failed => cases h

theorem length_flatMap_take {content : Bytes} {ns : List Nat} (h : ns.sum ≤ content.length) :
    (ns.flatMap content.take).length = ns.sum := by
  induction ns with
  | nil => rfl
  | cons n ns ih =>
      rw [List.sum_cons] at h
      rw [List.flatMap_cons, List.length_append, List.length_take, ih (by omega), List.sum_cons]
      omega

/-- **The content** arrives as it is exactly if every piece of it begins again. -/
theorem sendContent_eq_iff {content body : Bytes} {sends : List SendRet}
    (h : sendContent content content.length sends = some (body, true)) :
    body.length = content.length ∧ (body = content ↔ BeginsAgain content 0 (pieces content.length sends)) := by
  obtain ⟨rfl, hsum⟩ := sendContent_through h
  refine ⟨?_, ?_⟩
  · rw [length_flatMap_take (by omega), hsum]
  · have hiff := @flatMap_take_eq_iff content 0 (pieces content.length sends) (by omega)
    rwa [List.drop_zero] at hiff

/-! ## the header -/

section header

variable {w : HeaderThread} {server : Bytes} {now timeout : Int} {b : HeaderBlock} {rows : List (Bytes × Bytes)}

/-- The rows may be in one text. -/
theorem mkHeaderSendText_rows (hw : w.Ready server now timeout)
    (hb : HeaderBlock.OneLined { b with extraRows := [] } []) (hstatus : w.Knows b.status) (hne : b.extraRows ≠ [])
    (htext : b.extraRows.flatten = (rows.map fieldLine).flatten)
    (hroom : b.extraRows.length < mkPluginHeaderExtraRows * 2) (hrows : ∀ row ∈ rows, IsField row) :
    mkHeaderSendText w b true =
        some (composeHeader (statusLine w b.status) (headerFields w server now timeout b rows)) ∧
      ∀ f ∈ headerFields w server now timeout b rows, IsField f := by
  obtain ⟨hbefore, hfields⟩ := mkHeaderSendText_eq hw hb hstatus false
  have hall : headerFields w server now timeout b rows =
      headerFields w server now timeout { b with extraRows := [] } [] ++ rows := by
    simp only [headerFields, List.append_nil]
  refine ⟨?_, fun f hf => ?_⟩
  · obtain ⟨adds, hadds, hiov⟩ := Option.bind_eq_some_iff.mp hbefore
    obtain ⟨iov, hiov, hend⟩ := Option.bind_eq_some_iff.mp hiov
    have hsame : headerAdds w b true = some adds := by
      rw [← hadds]
      simp [headerAdds, hne]
    have hended : endedRows b true = some ⟨b.extraRows ++ [mkIovCrlf], mkPluginHeaderExtraRows * 2⟩ := by
      have hmore : b.extraRows.length + 1 ≤ mkPluginHeaderExtraRows * 2 := hroom
      rw [endedRows, if_pos ⟨rfl, hne⟩]
      simp [mkIovAddEntry, hmore]
    have hfirst : iov.io.flatten = statusLine w b.status ++ crlfText ++
        ((headerFields w server now timeout { b with extraRows := [] } []).map fieldLine).flatten := by
      simpa [endedRows] using hend
    rw [mkHeaderSendText, hsame, Option.bind_eq_bind, Option.bind_some, hiov, Option.bind_eq_bind, Option.bind_some,
      hended, Option.bind_some, hfirst, List.flatten_append, htext, hall, composeHeader,
      List.map_append, List.flatten_append]
    simp [mkIovCrlf, crlfText]
  · rw [hall] at hf
    exact (List.mem_append.mp hf).elim (hfields f) (hrows f)

/-- Where a client finds the end of an answer of one printed length. -/
theorem bodyLength_printed_iff (hstatus : b.status ∈ statusResponse) (hchunked : b.chunked = false)
    (hrows : ∀ row ∈ rows, NotLength row.1) {n : Nat} (hlength : b.contentLength = printedLength n) (head : Bool) :
    bodyLength head (statusLine w b.status) (headerFields w server now timeout b rows) = some n ↔
      n = 0 ∨ (head = false ∧ bodiless b.status = false ∧ n < 2 ^ 31) := by
  rw [bodyLength_headerFields hstatus hchunked hrows head, hlength]
  by_cases hnone : head = true ∨ bodiless b.status = true
  · rw [if_pos hnone, Option.some.injEq, eq_comm, or_iff_left]
    rintro ⟨hhead, hbodiless, -⟩
    rcases hnone with hand | hand
    · exact absurd hand (by simp [hhead])
    · exact absurd hand (by simp [hbodiless])
  · rw [if_neg hnone]
    rw [not_or, Bool.not_eq_true, Bool.not_eq_true] at hnone
    refine clientLength_self.trans ⟨fun hlt => .inr ⟨hnone.1, hnone.2, by omega⟩, fun hor => ?_⟩
    omega

end header

section answered

variable {h : ResponseHeaders} {status length : Int} {text : Bytes}

@[simp] theorem ResponseHeaders.answered_status : (h.answered status length text).status = status := rfl
@[simp] theorem ResponseHeaders.answered_contentLength : (h.answered status length text).contentLength = length := rfl
@[simp] theorem ResponseHeaders.answered_transferEncoding :
    (h.answered status length text).transferEncoding = h.transferEncoding := rfl

@[simp] theorem SessionRequest.answered_headers (sr : SessionRequest) (a : DataAnswer) :
    (sr.answered a).headers = sr.headers.answered (toInt a.status) a.content.length (cstr a.header) := by
  rw [SessionRequest.answered]

/-- The header of an answer without its rows. -/
theorem ResponseHeaders.OneLined.bare {sr : SessionRequest} (hh : h.OneLined [])
    (hsr : sr.headers = h.answered status length text) (ctx : Ctx) :
    HeaderBlock.OneLined { headerBlock ctx sr with extraRows := [] } [] := by
  have hplain : ({ sr with headers := { sr.headers with extraRows := [] } } : SessionRequest).headers.OneLined [] := by
    rw [hsr]
    exact ⟨hh.lastModified, hh.location, hh.contentType, rfl, by simp, by simp [mkPluginHeaderExtraRows]⟩
  have hblock := hplain.block ctx
  exact ⟨hblock.lastModified, fun _ hmax => isInt_connectionField hmax, hblock.location, hblock.contentType,
    hblock.contentLength, rfl, hblock.rows, hblock.room⟩

theorem headerBlock_status (ctx : Ctx) (sr : SessionRequest) : (headerBlock ctx sr).status = sr.headers.status := rfl

theorem headerBlock_chunked {sr : SessionRequest} (ctx : Ctx) (h : sr.headers.transferEncoding ≠ 0) :
    (headerBlock ctx sr).chunked = false := decide_eq_false fun hand => h hand.2

theorem headerBlock_contentLength (ctx : Ctx) (sr : SessionRequest) :
    (headerBlock ctx sr).contentLength = printedLength sr.headers.contentLength := rfl

end answered

theorem fieldLine_flatten_eq_nil {rows : List (Bytes × Bytes)} (h : [] = (rows.map fieldLine).flatten) :
    rows = [] := by
  cases rows with
  | nil => rfl
  | cons row rows => simp [fieldLine] at h

/-! ## exchanges -/

/-- A request that the callback answers, and what the header and the socket depend on besides. -/
structure DataExchange where
  thread : HeaderThread
  server : Bytes
  now : Int
  ctx : Ctx
  file : Bytes
  sr : SessionRequest
  sends : List SendRet
  /-- The rows of the answer. -/
  rows : List (Bytes × Bytes)

section exchange

variable (dataf : DataArgs → DataAnswer) (timeout : Int) (x : DataExchange)

def DataExchange.answer : DataAnswer := dataf (dataArgs x.file x.sr)

/-- What `mk_plugin_stage_run` returns and sends. -/
def DataExchange.stage : Option (Int × Bytes) := mkPluginStageData x.thread x.ctx dataf x.file x.sr x.sends

/-- The bytes that are sent. -/
def DataExchange.bytes : Bytes := (x.stage dataf).elim [] Prod.snd

def DataExchange.block : HeaderBlock := headerBlock x.ctx (x.sr.answered (x.answer dataf))

/-- A response with the header of the answer. -/
def DataExchange.response (body : Bytes) : Response where
  start := statusLine x.thread (x.block dataf).status
  fields := headerFields x.thread x.server x.now timeout (x.block dataf) x.rows
  body := body

/-- The response that the program means. -/
def DataExchange.meant : Response := x.response dataf timeout (x.answer dataf).content

/-- A status of the table and rows of one line each that say nothing about the length, behind headers that
nothing has been added to. -/
structure DataExchange.Clear : Prop where
  ready : x.thread.Ready x.server x.now timeout
  headers : x.sr.headers.OneLined []
  whole : x.sr.headers.transferEncoding ≠ 0
  status : toInt (x.answer dataf).status ∈ statusResponse
  text : (if 0 < (cstr (x.answer dataf).header).length then cstr (x.answer dataf).header ++ mkIovCrlf else []) =
    (x.rows.map fieldLine).flatten
  rows : ∀ row ∈ x.rows, IsField row ∧ NotLength row.1

/-- A client can find the end of the content if there is one, and every piece of it begins again. -/
def DataExchange.Framed : Prop :=
  ((x.answer dataf).content = [] ∨ (x.sr.method ≠ .head ∧ bodiless (toInt (x.answer dataf).status) = false ∧
      (x.answer dataf).content.length < 2 ^ 31)) ∧
    BeginsAgain (x.answer dataf).content 0 (pieces (x.answer dataf).content.length x.sends)

instance : Decidable (x.Framed dataf) := inferInstanceAs (Decidable (_ ∧ _))

end exchange

section exchange

variable {dataf : DataArgs → DataAnswer} {timeout : Int} {x : DataExchange}

theorem DataExchange.block_status : (x.block dataf).status = toInt (x.answer dataf).status := by
  rw [DataExchange.block, headerBlock_status, SessionRequest.answered_headers, ResponseHeaders.answered_status]

theorem DataExchange.Clear.known (h : x.Clear dataf timeout) : (x.block dataf).status ∈ statusResponse := by
  rw [DataExchange.block_status]
  exact h.status

/-- The header that is sent. -/
theorem DataExchange.Clear.header (h : x.Clear dataf timeout) (body : Bytes) :
    mkHeaderSendText x.thread (x.block dataf) true =
        some (composeHeader (x.response dataf timeout body).start (x.response dataf timeout body).fields) ∧
      (x.response dataf timeout body).Readable := by
  have hbare : HeaderBlock.OneLined { x.block dataf with extraRows := [] } [] :=
    h.headers.bare (SessionRequest.answered_headers ..) x.ctx
  have hstatus : x.thread.Knows (x.block dataf).status := .inl h.known
  have hextra : (x.block dataf).extraRows =
      if 0 < (cstr (x.answer dataf).header).length then [cstr (x.answer dataf).header, mkIovCrlf] else [] := by
    have hnone : x.sr.headers.extraRows = [] := h.headers.extraRows
    simp only [DataExchange.block, headerBlock, SessionRequest.answered, ResponseHeaders.answered, hnone,
      List.nil_append]
  have htext := h.text
  obtain ⟨-, hne, hnew⟩ := responseText_eq hstatus
  simp only [DataExchange.response]
  generalize x.block dataf = b at *
  by_cases hempty : 0 < (cstr (x.answer dataf).header).length
  · rw [if_pos hempty] at htext hextra
    obtain ⟨hsend, hfields⟩ := mkHeaderSendText_rows h.ready hbare hstatus (by simp [hextra])
      (by simpa [hextra] using htext) (by simp [hextra, mkPluginHeaderExtraRows]) fun row hrow => (h.rows row hrow).1
    exact ⟨hsend, ⟨hne, hnew⟩, hfields⟩
  · rw [if_neg hempty] at htext hextra
    rw [fieldLine_flatten_eq_nil htext]
    rw [← hextra] at hbare
    obtain ⟨hsend, hfields⟩ := mkHeaderSendText_eq h.ready hbare hstatus true
    exact ⟨hsend, ⟨hne, hnew⟩, hfields⟩

/-- The stage, with the names of the exchange. -/
theorem DataExchange.stage_eq (dataf : DataArgs → DataAnswer) (x : DataExchange) :
    x.stage dataf = if (x.answer dataf).ret = mklibFalse then some (-1, []) else
      (mkHeaderSendText x.thread (x.block dataf) true).bind fun header =>
        (sendContent (x.answer dataf).content (x.answer dataf).content.length x.sends).bind fun r =>
          some (if r.2 = true ∧ (x.answer dataf).ret = mklibTrue then pluginRetEnd else -1, header ++ r.1) := rfl

/-- What a stage that returns `MK_PLUGIN_RET_END` has sent. -/
theorem DataExchange.Clear.sent (h : x.Clear dataf timeout) (hend : (x.stage dataf).map Prod.fst = some pluginRetEnd) :
    ∃ body, sendContent (x.answer dataf).content (x.answer dataf).content.length x.sends = some (body, true) ∧
      x.bytes dataf = (x.response dataf timeout body).text := by
  obtain ⟨⟨ret, bytes⟩, hstage, rfl⟩ := Option.map_eq_some_iff.mp hend
  have hbytes : x.bytes dataf = bytes := by rw [DataExchange.bytes, hstage]; rfl
  rw [DataExchange.stage_eq] at hstage
  by_cases hret : (x.answer dataf).ret = mklibFalse
  · rw [if_pos hret] at hstage
    obtain ⟨hval, -⟩ := Prod.mk.inj (Option.some.inj hstage)
    exact absurd hval (by decide)
  · rw [if_neg hret, (h.header []).1, Option.bind_some] at hstage
    obtain ⟨⟨body, through⟩, hsend, hpair⟩ := Option.bind_eq_some_iff.mp hstage
    obtain ⟨hval, rfl⟩ := Prod.mk.inj (Option.some.inj hpair)
    have hthrough : through = true := by
      by_contra hnot
      rw [if_neg fun hand => hnot hand.1] at hval
      exact absurd hval (by decide)
    subst hthrough
    exact ⟨body, hsend, hbytes⟩

/-- A program that handles the request ends it when its content is through. -/
theorem DataExchange.Clear.ends (h : x.Clear dataf timeout) (hret : (x.answer dataf).ret = mklibTrue)
    (hsend : (sendContent (x.answer dataf).content (x.answer dataf).content.length x.sends).map Prod.snd = some true) :
    (x.stage dataf).map Prod.fst = some pluginRetEnd := by
  obtain ⟨⟨body, through⟩, hsend, rfl⟩ := Option.map_eq_some_iff.mp hsend
  have hfalse : ¬ (x.answer dataf).ret = mklibFalse := by
    rw [hret]
    decide
  rw [DataExchange.stage_eq, if_neg hfalse, (h.header []).1, Option.bind_some, hsend, Option.bind_some,
    if_pos ⟨rfl, hret⟩]
  rfl

/-- The length that a client takes the content to have. -/
theorem DataExchange.Clear.announces_iff (h : x.Clear dataf timeout) (body : Bytes) :
    bodyLength (decide (x.sr.method = .head)) (x.response dataf timeout body).start
        (x.response dataf timeout body).fields = some (x.answer dataf).content.length ↔
      (x.answer dataf).content = [] ∨ (x.sr.method ≠ .head ∧ bodiless (toInt (x.answer dataf).status) = false ∧
        (x.answer dataf).content.length < 2 ^ 31) := by
  have hlength : (x.block dataf).contentLength = printedLength (x.answer dataf).content.length := by
    rw [DataExchange.block, headerBlock_contentLength, SessionRequest.answered_headers,
      ResponseHeaders.answered_contentLength]
  have hwhole : (x.block dataf).chunked = false := by
    refine headerBlock_chunked x.ctx ?_
    rw [SessionRequest.answered_headers, ResponseHeaders.answered_transferEncoding]
    exact h.whole
  have hcut := @bodyLength_printed_iff x.thread x.server x.now timeout (x.block dataf) x.rows h.known hwhole
    (fun row hrow => (h.rows row hrow).2) _ hlength (decide (x.sr.method = .head))
  rw [decide_eq_false_iff_not, DataExchange.block_status] at hcut
  rw [DataExchange.response, DataExchange.block_status, hcut, List.length_eq_zero_iff]

end exchange

/-- A callback that knows one page. -/
def onePage (args : DataArgs) : DataAnswer :=
  if args.url = ascii "/a".toList then
    { ret := mklibTrue, content := ascii "aa".toList, header := ascii "X-By: me".toList ++ [0] }
  else { ret := mklibTrue, status := 404 }

/-- The page, which is taken in two pieces, and a HEAD for another one. -/
def twoExchanges : List DataExchange :=
  [{ thread := sampleThread, server := ascii "Monkey".toList, now := 1000000000, ctx := sampleCtx, file := []
     sr := { method := .get, uri := ⟨some (ascii "/a".toList), 2⟩ }
     sends := [.again, .sent 1, .sent 5]
     rows := [(ascii "X-By".toList, ascii "me".toList)] },
   { thread := sampleThread, server := ascii "Monkey".toList, now := 1000000000, ctx := sampleCtx, file := []
     sr := { method := .head, uri := ⟨some (ascii "/b".toList), 2⟩ }
     sends := []
     rows := [] }]

theorem clear_twoExchanges : ∀ x ∈ twoExchanges, x.Clear onePage 15 := by
  have hplain : ResponseHeaders.OneLined {} [] :=
    ⟨fun h => absurd h (by decide), fun _ h => (by cases h), fun h => absurd rfl h, rfl, by simp, by decide⟩
  intro x hx
  simp only [twoExchanges, List.mem_cons, List.not_mem_nil, or_false] at hx
  rcases hx with rfl | rfl
  · refine ⟨sampleThread_ready, hplain, by decide, by decide +kernel, by decide +kernel, fun row hrow => ?_⟩
    rw [List.mem_singleton.mp hrow]
    exact ⟨⟨by decide, by decide⟩, by decide +kernel⟩
  · exact ⟨sampleThread_ready, hplain, by decide, by decide +kernel, by decide +kernel,
      fun row hrow => (by cases hrow)⟩

end Monkey
