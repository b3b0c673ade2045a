import Monkey.Http.Answer

/-!
# Monkey.Http.Reply

The shape of an answer of one header: the header and a page, the header and the
beginning of a file (`mk_http_send_file`), or a header and the connection
aborted.  The `Connection` field of the header is the one of the request as it is
left.
-/

namespace Monkey

/-! ## the connection field -/

theorem mkHttpKeepaliveCheck_congr {cfg : Config} {cs : ClientSession} {sr sr' : SessionRequest}
    {rest : List SessionRequest} (hclose : sr'.closeNow = sr.closeNow)
    (hkeep : sr'.keepAlive = sr.keepAlive) (hproto : sr'.protocol = sr.protocol)
    (hconn : sr'.connection = sr.connection)
    (hlen : sr'.headers.contentLength = sr.headers.contentLength) :
    mkHttpKeepaliveCheck cfg cs (sr' :: rest) = mkHttpKeepaliveCheck cfg cs (sr :: rest) := by
  unfold mkHttpKeepaliveCheck
  cases rest with
  | nil => simp only [List.getLast?_singleton, hclose, hkeep, hproto, hconn, hlen]
  | cons a rest => simp only [List.getLast?_cons_cons]

/-- The field depends on the flags and the length of the response. -/
theorem connectionField_congr {ctx : Ctx} {sr sr' : SessionRequest}
    (hclose : sr'.closeNow = sr.closeNow) (hkeep : sr'.keepAlive = sr.keepAlive)
    (hproto : sr'.protocol = sr.protocol) (hconn : sr'.connection = sr.connection)
    (hfield : sr'.headers.connection = sr.headers.connection)
    (hlen : sr'.headers.contentLength = sr.headers.contentLength) :
    connectionField ctx sr' = connectionField ctx sr := by
  unfold connectionField
  rw [hfield, hconn, mkHttpKeepaliveCheck_congr hclose hkeep hproto hconn hlen]

/-- A header with a known status. -/
theorem mkHeaderSend_known {ctx : Ctx} {sr : SessionRequest}
    (h : statusKnown sr.headers.status = true) : ∃ hb, (mkHeaderSend ctx sr).out = [.header hb] ∧
      hb.connection = connectionField ctx (mkHeaderSend ctx sr).sr := by
  refine ⟨headerBlock ctx sr, ?_, ?_⟩
  · rw [mkHeaderSend]
    simp only
    rw [if_pos (of_decide_eq_true h)]
  · exact connectionField_congr rfl rfl rfl rfl rfl rfl

/-! ## the shape of an answer -/

/-- The part of a file that follows the header, offset and count. -/
def Plan.window (ctx : Ctx) : Plan → Option (Int × Int)
  | .error status sr | .refuse _ status sr =>
      (errorPageFile ctx.sys status sr).map fun page => (sr.bytesOffset, page.2.size)
  | .send sr =>
      if sr.headers.contentLength ≠ 0 ∧ (sr.method = .get ∨ sr.method = .post) then
        some ((mkHttpRangeSet ctx.cfg sr.fileInfo.size sr).2.bytesOffset,
          (mkHttpRangeSet ctx.cfg sr.fileInfo.size sr).2.bytesToSend)
      else none
  | _ => none

/-- The connection is closed whatever the request says. -/
def Plan.aborts : Plan → Bool
  | .silent ret _ | .refuse ret _ _ => ret = exitAbort
  | .noHome _ => true
  | _ => false

/-- An answer of one header. -/
inductive Reply (ctx : Ctx) (plan : Plan) : Res → Prop
  | text {ret : Int} {sr : SessionRequest} {h : HeaderBlock} {page : List Out}
      (ret_eq : ret = exitNormal ∨ ret = exitError) (flags : sr.flags = plan.sr.flags)
      (handled : sr.handledBy = plan.sr.handledBy)
      (field : h.connection = connectionField ctx sr)
      (page_eq : page = [] ∨ ∃ t, page = [.page t]) (window : plan.window ctx = none)
      (aborts : plan.aborts = false) : Reply ctx plan ⟨ret, sr, .header h :: page⟩
  | file {sr : SessionRequest} {h : HeaderBlock} {offset count : Int}
      (flags : sr.flags = plan.sr.flags.sending offset count)
      (handled : sr.handledBy = plan.sr.handledBy) (loop : sr.loop = plan.sr.loop)
      (field : h.connection = connectionField ctx sr)
      (window : plan.window ctx = some (offset, count)) (aborts : plan.aborts = false) :
      Reply ctx plan ((mkHttpSendFile ctx sr).after [.header h])
  | aborted {sr : SessionRequest} {h : HeaderBlock} {out : List Out}
      (flags : ∃ offset count, sr.flags = plan.sr.flags.sending offset count)
      (field : h.connection = connectionField ctx sr) (aborts : plan.aborts = true) :
      Reply ctx plan ⟨exitAbort, sr, .header h :: out⟩

/-- What is sent with the default page of an error. -/
theorem mkRequestError_text {ctx : Ctx} {status : Int} {sr : SessionRequest}
    (hknown : statusKnown status = true) (hpage : errorPageFile ctx.sys status sr = none) :
    ∃ sr' h page, mkRequestError ctx status sr = ⟨exitError, sr', .header h :: page⟩ ∧
      sr'.flags = sr.flags ∧ sr'.handledBy = sr.handledBy ∧
      h.connection = connectionField ctx sr' ∧ (page = [] ∨ ∃ t, page = [.page t]) := by
  unfold mkRequestError
  simp only
  rw [show errorPageFile ctx.sys status
    { sr with headers := { sr.headers with status := status } } = none from hpage]
  generalize defaultPage status _ = page
  simp only
  obtain ⟨h, hout, hfield⟩ := @mkHeaderSend_known ctx { sr with
    headers := { sr.headers with
      status := status
      contentLength := page.elim sr.headers.contentLength fun p => (p.length : Int)
      location := none, lastModified := -1
      contentType := page.elim [] fun _ => ascii "text/html\r\n".toList } } hknown
  rw [hout]
  refine ⟨_, h, _, rfl, rfl, rfl, hfield, ?_⟩
  cases page with
  | none => exact .inl rfl
  | some p =>
      simp only
      split
      · exact .inl rfl
      · exact .inr ⟨p, rfl⟩

/-- What is sent with a customized page. -/
theorem mkRequestError_file {ctx : Ctx} {status : Int} {sr : SessionRequest} {path : Bytes}
    {info : FileInfo} (hknown : statusKnown status = true)
    (hpage : errorPageFile ctx.sys status sr = some (path, info)) :
    ∃ sr' h, mkRequestError ctx status sr = (mkHttpSendFile ctx sr').after [.header h] ∧
      sr'.flags = sr.flags.sending sr.bytesOffset info.size ∧ sr'.handledBy = sr.handledBy ∧
      sr'.loop = sr.loop ∧ h.connection = connectionField ctx sr' := by
  unfold mkRequestError
  simp only
  rw [show errorPageFile ctx.sys status
    { sr with headers := { sr.headers with status := status } } = some (path, info) from hpage]
  simp only
  obtain ⟨h, hout, hfield⟩ := @mkHeaderSend_known ctx { sr with
    fdFile := some path, bytesToSend := info.size, fileInfo := info
    headers := { sr.headers with
      status := status, contentLength := info.size, realLength := info.size } } hknown
  rw [hout]
  exact ⟨_, h, rfl, rfl, rfl, rfl, hfield⟩

theorem toNat_eq_one {b : Bool} (h : b.toNat = 1) : b = true := by
  cases b
  · contradiction
  · rfl

/-- An error response of any return value but its own aborts or has no file. -/
theorem Reply.of_error {ctx : Ctx} {plan : Plan} {status : Int} {sr : SessionRequest}
    (hsr : plan.sr.flags = sr.flags) (hhandled : plan.sr.handledBy = sr.handledBy)
    (hloop : plan.sr.loop = sr.loop) (hknown : statusKnown status = true)
    (hwindow : plan.window ctx =
      (errorPageFile ctx.sys status sr).map fun page => (sr.bytesOffset, page.2.size))
    (haborts : plan.aborts = false) : Reply ctx plan (mkRequestError ctx status sr) := by
  cases hpage : errorPageFile ctx.sys status sr with
  | none =>
      obtain ⟨sr', h, page, hres, hflags, hh, hfield, hp⟩ := mkRequestError_text hknown hpage
      rw [hres]
      exact .text (.inr rfl) (hflags.trans hsr.symm) (hh.trans hhandled.symm) hfield hp
        (by rw [hwindow, hpage]; rfl) haborts
  | some page =>
      obtain ⟨path, info⟩ := page
      obtain ⟨sr', h, hres, hflags, hh, hl, hfield⟩ := mkRequestError_file hknown hpage
      rw [hres]
      exact .file (hflags.trans (by rw [hsr])) (hh.trans hhandled.symm) (hl.trans hloop.symm) hfield
        (by rw [hwindow, hpage]; rfl) haborts

/-- The same when the caller returns its own value. -/
theorem Reply.of_refusal {ctx : Ctx} {plan : Plan} {status ret : Int} {sr : SessionRequest}
    (hsr : plan.sr.flags = sr.flags) (hhandled : plan.sr.handledBy = sr.handledBy)
    (hplain : plainStatus status = true) (hret : ret = exitNormal ∨ ret = exitError)
    (hwindow : plan.window ctx = none) (haborts : plan.aborts = false) :
    Reply ctx plan { mkRequestError ctx status sr with ret := ret } := by
  have hpage : errorPageFile ctx.sys status sr = none := by
    rw [errorPageFile, if_pos hplain]
  obtain ⟨sr', h, page, hres, hflags, hh, hfield, hp⟩ :=
    mkRequestError_text (statusKnown_of_plainStatus hplain) hpage
  rw [hres]
  exact .text hret (hflags.trans hsr.symm) (hh.trans hhandled.symm) hfield hp hwindow haborts

/-- `mk_http_send_file` only moves the window. -/
theorem mkHttpSendFile_flags (ctx : Ctx) (sr : SessionRequest) : ∃ offset count,
    (mkHttpSendFile ctx sr).sr.flags = sr.flags.sending offset count ∧
      connectionField ctx (mkHttpSendFile ctx sr).sr = connectionField ctx sr := by
  unfold mkHttpSendFile
  simp only
  split
  · exact ⟨_, _, rfl, connectionField_congr rfl rfl rfl rfl rfl rfl⟩
  · split
    · exact ⟨sr.bytesOffset, sr.bytesToSend, rfl, connectionField_congr rfl rfl rfl rfl rfl rfl⟩
    · exact ⟨sr.bytesOffset, sr.bytesToSend, rfl, connectionField_congr rfl rfl rfl rfl rfl rfl⟩

/-- An error response after which the connection is aborted. -/
theorem Reply.of_abort {ctx : Ctx} {plan : Plan} {status : Int} {sr : SessionRequest}
    (hsr : plan.sr.flags = sr.flags) (hknown : statusKnown status = true)
    (haborts : plan.aborts = true) :
    Reply ctx plan { mkRequestError ctx status sr with ret := exitAbort } := by
  cases hpage : errorPageFile ctx.sys status sr with
  | none =>
      obtain ⟨sr', h, page, hres, hflags, _, hfield, _⟩ := mkRequestError_text hknown hpage
      rw [hres]
      exact .aborted ⟨_, _, hflags.trans hsr.symm⟩ hfield haborts
  | some page =>
      obtain ⟨sr', h, hres, hflags, _, _, hfield⟩ := mkRequestError_file hknown hpage
      obtain ⟨offset, count, hmoved, hsame⟩ := mkHttpSendFile_flags ctx sr'
      rw [hres]
      refine .aborted ⟨offset, count, hmoved.trans ?_⟩ (hfield.trans hsame.symm) haborts
      rw [hflags, hsr]
      rfl

/-- An answer that is sent: the header, and the file unless there is none to send. -/
theorem Reply.of_send {ctx : Ctx} {sr : SessionRequest} (hknown : statusKnown sr.headers.status = true)
    (hlate : lateRefusal ctx.cfg sr = false) : Reply ctx (.send sr) ((Plan.send sr).run ctx) := by
  obtain ⟨h, hout, hfield⟩ := @mkHeaderSend_known ctx sr hknown
  rw [Plan.run, mkHttpInitTail]
  simp only [mkHttpRangeSet_mkHeaderSend]
  by_cases hcl : (mkHeaderSend ctx sr).sr.headers.contentLength = 0
  · rw [if_pos hcl, hout]
    refine .text (.inl rfl) rfl rfl hfield (.inl rfl) ?_ rfl
    rw [Plan.window, if_neg fun hw => hw.1 hcl]
  · rw [if_neg hcl]
    by_cases hm : (mkHeaderSend ctx sr).sr.method = .get ∨ (mkHeaderSend ctx sr).sr.method = .post
    · have hset : (mkHttpRangeSet ctx.cfg sr.fileInfo.size sr).1 = 0 := by
        by_contra hr
        rw [lateRefusal, decide_eq_true ⟨hcl, hm, hr⟩] at hlate
        contradiction
      rw [if_pos hm, if_neg (not_not.mpr hset), hout]
      refine .file rfl rfl rfl (hfield.trans (connectionField_congr rfl rfl rfl rfl rfl rfl)) ?_ rfl
      rw [Plan.window, if_pos ⟨hcl, hm⟩]
    · rw [if_neg hm, hout]
      refine .text (.inl rfl) rfl rfl hfield (.inl rfl) ?_ rfl
      rw [Plan.window, if_neg fun hw => hm hw.2]

/-- **Shape of an answer**: a plan of one header replies with a text, with a file, or
aborts. -/
theorem Plan.reply {ctx : Ctx} {f : Flags} {plan : Plan} (hfor : plan.For ctx f)
    (hone : plan.headers ctx = 1) : Reply ctx plan (plan.run ctx) := by
  cases plan with
  | silent ret sr => contradiction
  | error status sr => exact Reply.of_error rfl rfl rfl (toNat_eq_one hone) rfl rfl
  | refuse ret status sr =>
      rcases hfor.refused ret status sr rfl with rfl | ⟨rfl, hplain⟩
      · exact Reply.of_abort rfl (toNat_eq_one hone) rfl
      · refine Reply.of_refusal rfl rfl hplain (.inl rfl) ?_ rfl
        rw [Plan.window, errorPageFile, if_pos hplain]
        rfl
  | noHome sr =>
      have hknown : unknownUser ctx.sys sr = false := by
        cases hu : unknownUser ctx.sys sr with
        | false => rfl
        | true => simp [Plan.headers, hu] at hone
      rcases mkUserInit_cases ctx sr with ⟨path, huser, _⟩ | ⟨huser, _⟩ | ⟨_, hunknown⟩
      · simp only [Plan.run, huser, Res.after, List.nil_append]
        exact Reply.of_abort rfl rfl rfl
      · simp only [Plan.run, huser, Res.after, List.nil_append]
        exact Reply.of_abort rfl rfl rfl
      · rw [hknown] at hunknown
        contradiction
  | noData sr =>
      rcases mkMethodParseData_cases ctx sr with ⟨_, _, _, hdata⟩ | ⟨status, toc, hplain, hdata⟩
      · exact absurd (by rw [hdata]) (hfor.data sr rfl)
      · rw [Plan.run, hdata]
        exact Reply.of_refusal rfl rfl hplain (.inr rfl) rfl rfl
  | redirect sr =>
      obtain ⟨r, hr⟩ := Option.isSome_iff_exists.mp (hfor.location sr rfl)
      obtain ⟨sr', hstatus, hflags, hhandled, _, rfl⟩ := mkHttpDirectoryRedirectCheck_some hr
      obtain ⟨h, hout, hfield⟩ := @mkHeaderSend_known ctx sr' (by rw [hstatus]; rfl)
      rw [Plan.run, hr, Option.getD_some, hout]
      exact .text (.inr rfl) hflags hhandled
        (hfield.trans (connectionField_congr rfl rfl rfl rfl rfl rfl)) (.inl rfl) rfl rfl
  | notModified sr =>
      obtain ⟨h, hout, hfield⟩ := @mkHeaderSend_known ctx
        { sr with headers := { sr.headers with status := mkNotModified } } rfl
      rw [Plan.run, hout]
      exact .text (.inl rfl) rfl rfl hfield (.inl rfl) rfl rfl
  | send sr =>
      have hknown : statusKnown sr.headers.status = true := by
        rcases hfor.status sr rfl with hs | hs <;> rw [hs] <;> rfl
      have hlate : lateRefusal ctx.cfg sr = false := by
        cases hl : lateRefusal ctx.cfg sr with
        | false => rfl
        | true => simp [Plan.headers, hl] at hone
      exact Reply.of_send hknown hlate

end Monkey
