import Monkey.Http.Plan
import Monkey.Http.Window

/-!
# Monkey.Http.Answer

What every plan of a request keeps and writes: the flags that decide about the
connection are those of its header fields, a file or a redirect is answered with a
known status, and the number of response headers follows from the kind of the
plan.
-/

namespace Monkey

/-! ## the flags of a request -/

/-- The fields of a request that are set by its header fields or not at all until
the file is sent. -/
structure Flags where
  closeNow : Bool
  keepAlive : Bool
  protocol : Protocol
  connection : MkPointer
  field : Int
  bytesToSend : Int
  bytesOffset : Int
deriving DecidableEq

/-- The same flags with another window to send. -/
def Flags.sending (f : Flags) (offset count : Int) : Flags :=
  { f with bytesToSend := count, bytesOffset := offset }

def SessionRequest.flags (sr : SessionRequest) : Flags :=
  ⟨sr.closeNow, sr.keepAlive, sr.protocol, sr.connection, sr.headers.connection,
    sr.bytesToSend, sr.bytesOffset⟩

/-- The request of a plan. -/
def Plan.sr : Plan → SessionRequest
  | .silent _ sr | .error _ sr | .refuse _ _ sr | .noHome sr | .noData sr | .redirect sr
  | .notModified sr | .send sr => sr

theorem mkHttpRangeParse_flags (sr : SessionRequest) : (mkHttpRangeParse sr).2.flags = sr.flags := by
  rw [mkHttpRangeParse_eq]
  rcases rangeForm sr.range with _ | (_ | _ | _) <;> rfl

/-- A range keeps the flags, and leaves the status or makes it a 206. -/
theorem rangeStep_flags {cfg : Config} {sr sr' : SessionRequest} (h : rangeStep cfg sr = some sr') :
    sr'.flags = sr.flags ∧
      (sr'.headers.status = sr.headers.status ∨ sr'.headers.status = mkHttpPartial) := by
  have hflags := mkHttpRangeParse_flags sr
  have hstatus : (mkHttpRangeParse sr).2.headers.status = sr.headers.status := by
    rw [mkHttpRangeParse_eq]
    rcases rangeForm sr.range with _ | (_ | _ | _) <;> rfl
  unfold rangeStep at h
  split at h
  · simp only at h
    split at h
    · contradiction
    · split at h
      · obtain rfl := Option.some.inj h
        exact ⟨hflags, .inr rfl⟩
      · obtain rfl := Option.some.inj h
        exact ⟨hflags, .inl hstatus⟩
  · obtain rfl := Option.some.inj h
    exact ⟨rfl, .inl rfl⟩

theorem stage30Loop_flags (stm : List (SessionRequest → Stage30Answer)) (sr : SessionRequest) :
    (stage30Loop stm sr).2.flags = sr.flags := by
  induction stm generalizing sr with
  | nil => rfl
  | cons s30 stm ih =>
      unfold stage30Loop
      simp only
      split
      · exact ih _
      · rfl

theorem mkPluginStage30_flags (sys : Sys) (sr : SessionRequest) :
    (mkPluginStage30 sys sr).2.flags = sr.flags := by
  unfold mkPluginStage30
  split
  · rfl
  · exact stage30Loop_flags _ _

/-! ## the plan of a request -/

/-- A plan made for a request with the flags `f`: a file is sent with status 200
or 206, a redirect has a location, posted data is refused for a reason, and a
request refused by its caller is aborted or gets a plain page. -/
structure Plan.For (ctx : Ctx) (f : Flags) (plan : Plan) : Prop where
  flags : plan.sr.flags = f
  status : ∀ sr, plan = .send sr →
    sr.headers.status = mkHttpOk ∨ sr.headers.status = mkHttpPartial
  location : ∀ sr, plan = .redirect sr → (mkHttpDirectoryRedirectCheck ctx sr).isSome
  data : ∀ sr, plan = .noData sr → (mkMethodParseData ctx sr).ret ≠ 0
  refused : ∀ ret status sr, plan = .refuse ret status sr →
    ret = exitAbort ∨ (ret = exitNormal ∧ plainStatus status = true)

section

variable {ctx : Ctx} {sr : SessionRequest} {f : Flags}

theorem Plan.for_error (hf : sr.flags = f) (status : Int) : (Plan.error status sr).For ctx f :=
  ⟨hf, by rintro _ ⟨⟩, by rintro _ ⟨⟩, by rintro _ ⟨⟩, by rintro _ _ _ ⟨⟩⟩

theorem Plan.for_refuse (hf : sr.flags = f) {ret status : Int}
    (h : ret = exitAbort ∨ (ret = exitNormal ∧ plainStatus status = true)) :
    (Plan.refuse ret status sr).For ctx f :=
  ⟨hf, by rintro _ ⟨⟩, by rintro _ ⟨⟩, by rintro _ ⟨⟩, by rintro _ _ _ ⟨⟩; exact h⟩

theorem Plan.for_silent (hf : sr.flags = f) (ret : Int) : (Plan.silent ret sr).For ctx f :=
  ⟨hf, by rintro _ ⟨⟩, by rintro _ ⟨⟩, by rintro _ ⟨⟩, by rintro _ _ _ ⟨⟩⟩

theorem planSend_for (hf : sr.flags = f)
    (hstatus : sr.headers.status = mkHttpOk ∨ sr.headers.status = mkHttpPartial) :
    (planSend ctx sr).For ctx f := by
  unfold planSend
  split
  · split
    · exact ⟨hf, by rintro _ ⟨⟩; exact hstatus, by rintro _ ⟨⟩, by rintro _ ⟨⟩, by rintro _ _ _ ⟨⟩⟩
    · exact Plan.for_error hf _
  · exact ⟨hf, by rintro _ ⟨⟩; exact hstatus, by rintro _ ⟨⟩, by rintro _ ⟨⟩, by rintro _ _ _ ⟨⟩⟩

theorem planRange_for (hf : sr.flags = f) (hstatus : sr.headers.status = mkHttpOk) :
    (planRange ctx sr).For ctx f := by
  unfold planRange
  cases hstep : rangeStep ctx.cfg sr with
  | none => exact Plan.for_error ((mkHttpRangeParse_flags sr).trans hf) _
  | some sr' =>
      obtain ⟨hflags, hstatus'⟩ := rangeStep_flags hstep
      exact planSend_for (hflags.trans hf) (by rwa [hstatus] at hstatus')

theorem planOk_for (hf : sr.flags = f) : (planOk ctx sr).For ctx f := by
  unfold planOk
  simp only
  split
  · exact planRange_for hf rfl
  · exact planSend_for hf (.inl rfl)

theorem planServe_for (hf : sr.flags = f) : (planServe ctx sr).For ctx f := by
  unfold planServe
  split
  · exact Plan.for_error hf _
  split
  · exact Plan.for_error hf _
  split
  · exact Plan.for_error hf _
  split
  · exact Plan.for_error hf _
  simp only
  split
  · exact ⟨hf, by rintro _ ⟨⟩, by rintro _ ⟨⟩, by rintro _ ⟨⟩, by rintro _ _ _ ⟨⟩⟩
  · exact planOk_for hf

theorem planStage30_for (hf : sr.flags = f) : (planStage30 ctx sr).For ctx f := by
  unfold planStage30
  split
  · exact planServe_for hf
  · have hflags := (mkPluginStage30_flags ctx.sys sr).trans hf
    generalize mkPluginStage30 ctx.sys sr = answer at hflags
    rcases answer with ⟨ret, sr'⟩
    cases ret
    · exact planServe_for hflags
    · exact Plan.for_silent hflags _
    · exact Plan.for_error hflags _
    · exact Plan.for_silent hflags _

theorem planLink_for (hf : sr.flags = f) : (planLink ctx sr).For ctx f := by
  unfold planLink
  split
  · exact Plan.for_error hf _
  · exact planStage30_for hf

theorem planFound_for (hf : sr.flags = f) : (planFound ctx sr).For ctx f := by
  unfold planFound
  split
  · split
    · next hsome => exact ⟨hf, by rintro _ ⟨⟩, by rintro _ ⟨⟩; exact hsome, by rintro _ ⟨⟩, by rintro _ _ _ ⟨⟩⟩
    · cases mkRequestIndex ctx sr.realPath with
      | some path => exact planLink_for hf
      | none => exact planLink_for hf
  · exact planLink_for hf

theorem planInit_for (hf : sr.flags = f) : (planInit ctx sr).For ctx f := by
  have hcompose : (composeRealPath sr).flags = f := by
    rw [← hf]
    unfold composeRealPath
    split <;> rfl
  unfold planInit
  simp only
  split
  · exact Plan.for_error hcompose _
  split
  · exact planFound_for hcompose
  · have hflags := (mkPluginStage30_flags ctx.sys { composeRealPath sr with
      fileInfo := (mkFileGetInfo ctx.sys (cstr (composeRealPath sr).realPath)
        (composeRealPath sr).fileInfo).2 }).trans hcompose
    generalize mkPluginStage30 ctx.sys _ = answer at hflags
    rcases answer with ⟨ret, sr'⟩
    cases ret
    · simp only
      split
      · exact Plan.for_error hflags _
      split
      · exact Plan.for_error hflags _
      · exact planFound_for hflags
    · exact Plan.for_silent hflags _
    · exact Plan.for_error hflags _
    · exact Plan.for_silent hflags _

theorem planHttp_for (hf : sr.flags = f) : (planHttp ctx sr).For ctx f := by
  unfold planHttp
  split
  · exact Plan.for_silent hf _
  · exact planInit_for hf

theorem planMethod_for (hf : sr.flags = f) : (planMethod ctx sr).For ctx f := by
  unfold planMethod
  split
  · split
    · next hret => exact ⟨hf, by rintro _ ⟨⟩, by rintro _ ⟨⟩, by rintro _ ⟨⟩; exact hret,
        by rintro _ _ _ ⟨⟩⟩
    · next hret =>
        rcases mkMethodParseData_cases ctx sr with ⟨toc, type, length, hdata⟩ | ⟨_, _, _, hdata⟩
        · rw [hdata]
          exact planHttp_for hf
        · rw [hdata] at hret
          exact absurd (by decide : (-1 : Int) ≠ 0) hret
  · exact planHttp_for hf

theorem planHome_for (hf : sr.flags = f) : (planHome ctx sr).For ctx f := by
  unfold planHome
  split
  · split
    · exact ⟨hf, by rintro _ ⟨⟩, by rintro _ ⟨⟩, by rintro _ ⟨⟩, by rintro _ _ _ ⟨⟩⟩
    · next hret =>
        rcases mkUserInit_cases ctx sr with ⟨path, huser, _⟩ | ⟨huser, _⟩ | ⟨huser, _⟩
        · rw [huser]
          exact planMethod_for hf
        all_goals
          rw [huser] at hret
          exact absurd (by decide : (-1 : Int) ≠ 0) hret
  · exact planMethod_for hf

theorem planProcess_for (hf : sr.flags = f) : (planProcess ctx sr).For ctx f := by
  unfold planProcess
  split
  · exact Plan.for_refuse hf (.inr ⟨rfl, rfl⟩)
  split
  · exact Plan.for_refuse hf (.inr ⟨rfl, rfl⟩)
  split
  · exact Plan.for_refuse hf (.inl rfl)
  · cases sr.host.data with
    | some _ => exact planHome_for hf
    | none => exact planHome_for hf

end

/-- The request once its header fields have been processed. -/
def parsedRequest (ctx : Ctx) (sr : SessionRequest) : SessionRequest :=
  (mkRequestHeaderProcess ctx.cfg ctx.sys { sr with hostConf := ctx.cfg.defaultHost }).2

/-- The fields of a request that belong to its response, and its method. -/
def SessionRequest.outside (sr : SessionRequest) : ResponseHeaders × Method × Int :=
  (sr.headers, sr.method, sr.bytesToSend)

/-- The `Host` header sets the host and the port. -/
theorem mkRequestHostProcess_eq (cfg : Config) (host : MkPointer) (sr : SessionRequest) :
    ∃ host' hostPort port, (mkRequestHostProcess cfg host sr).2 =
      { sr with host := host', hostPort := hostPort, port := port } := by
  unfold mkRequestHostProcess
  split
  · exact ⟨_, _, _, rfl⟩
  · simp only
    repeat' split
    all_goals exact ⟨_, _, _, rfl⟩

/-- The `Connection` header sets the flags of the connection. -/
theorem mkRequestConnectionProcess_eq (sr : SessionRequest) :
    ∃ keepAlive closeNow connection, mkRequestConnectionProcess sr =
      { sr with keepAlive := keepAlive, closeNow := closeNow, connection := connection } := by
  unfold mkRequestConnectionProcess
  simp only
  repeat' split
  all_goals exact ⟨_, _, _, rfl⟩

/-- A projection that none of the header fields belongs to is kept. -/
theorem mkRequestFieldsProcess_keeps {α : Type} {f : SessionRequest → α}
    (hf : ∀ (sr : SessionRequest) toc host hostPort port connection range since keepAlive closeNow,
      f { sr with
        headersToc := toc, host := host, hostPort := hostPort, port := port,
        connection := connection, range := range, ifModifiedSince := since,
        keepAlive := keepAlive, closeNow := closeNow } = f sr)
    (cfg : Config) (headers : Bytes) (headersLen : Int) (sr : SessionRequest) :
    f (mkRequestFieldsProcess cfg headers headersLen sr).2 = f sr := by
  unfold mkRequestFieldsProcess
  simp only
  obtain ⟨host', hostPort, port, hhost⟩ := mkRequestHostProcess_eq cfg
    (mkRequestHeaderGet (mkRequestHeaderTocParse headers headersLen) rhHost).1
    { sr with headersToc :=
        (mkRequestHeaderGet (mkRequestHeaderTocParse headers headersLen) rhHost).2 }
  split
  · next heq =>
      rw [heq] at hhost
      subst hhost
      exact hf sr _ _ _ _ _ _ _ _ _
  · next heq =>
      rw [heq] at hhost
      subst hhost
      obtain ⟨keepAlive, closeNow, connection, hconn⟩ := mkRequestConnectionProcess_eq _
      rw [hconn]
      exact hf sr _ _ _ _ _ _ _ _ _

theorem mkRequestUriProcess_eq (body : Bytes) (uriInit uriEnd protInit : Int) (sr : SessionRequest) :
    ∃ uri queryString, mkRequestUriProcess body uriInit uriEnd protInit sr =
      { sr with uri := uri, queryString := queryString } := by
  unfold mkRequestUriProcess
  simp only
  split
  all_goals exact ⟨_, _, rfl⟩

/-- A projection that neither the first line nor the header fields belong to is kept. -/
theorem mkRequestHeaderProcess_keeps {α : Type} {f : SessionRequest → α}
    (hline : ∀ (sr : SessionRequest) uri uriProcessed queryString protocol,
      f { sr with
        uri := uri, uriProcessed := uriProcessed, queryString := queryString,
        protocol := protocol } = f sr)
    (hfields : ∀ (sr : SessionRequest) toc host hostPort port connection range since keepAlive
      closeNow, f { sr with
        headersToc := toc, host := host, hostPort := hostPort, port := port,
        connection := connection, range := range, ifModifiedSince := since,
        keepAlive := keepAlive, closeNow := closeNow } = f sr)
    (cfg : Config) (sys : Sys) (sr : SessionRequest) :
    f (mkRequestHeaderProcess cfg sys sr).2 = f sr := by
  unfold mkRequestHeaderProcess
  simp only
  split
  · rfl
  split
  · rfl
  obtain ⟨uri, queryString, huri⟩ := mkRequestUriProcess_eq (sr.body.data.getD [])
    (indexOf sys (sr.body.data.getD []) 0x20 + 1)
    (mkStringCharSearchR (sr.body.data.getD []) 0x20 (indexOf sys (sr.body.data.getD []) 0x0a) - 1)
    (mkStringCharSearchR (sr.body.data.getD []) 0x20 (indexOf sys (sr.body.data.getD []) 0x0a) - 1
      + 2) sr
  rw [huri]
  split
  · exact hline sr _ _ _ _
  split
  · exact hline sr _ _ _ _
  rw [mkRequestFieldsProcess_keeps hfields, mkRequestUriDecode]
  split
  all_goals exact hline sr _ _ _ _

/-- The header fields of a request leave its response alone. -/
theorem mkRequestHeaderProcess_outside (cfg : Config) (sys : Sys) (sr : SessionRequest) :
    (mkRequestHeaderProcess cfg sys sr).2.outside = sr.outside :=
  mkRequestHeaderProcess_keeps (fun _ _ _ _ _ => rfl) (fun _ _ _ _ _ _ _ _ _ _ => rfl) cfg sys sr

/-- The posted data of a request is not touched. -/
theorem mkRequestHeaderProcess_data (cfg : Config) (sys : Sys) (sr : SessionRequest) :
    (mkRequestHeaderProcess cfg sys sr).2.data = sr.data :=
  mkRequestHeaderProcess_keeps (f := fun sr => sr.data) (fun _ _ _ _ _ => rfl)
    (fun _ _ _ _ _ _ _ _ _ _ => rfl) cfg sys sr

/-- The plan of a request has the flags of its header fields. -/
theorem mkRequestPlan_for (ctx : Ctx) (sr : SessionRequest) :
    (mkRequestPlan ctx sr).For ctx (parsedRequest ctx sr).flags := by
  unfold mkRequestPlan parsedRequest
  simp only
  split
  · exact Plan.for_refuse rfl (.inl rfl)
  · exact planProcess_for rfl

/-! ## how many headers -/

def Out.isHeader : Out → Bool
  | .header _ => true
  | _ => false

/-- The number of response headers in some output. -/
def headerCount (out : List Out) : Nat := out.countP Out.isHeader

/-- `mk_header_send` knows a line for the status. -/
def statusKnown (status : Int) : Bool := status = mkCustomStatus ∨ status ∈ statusResponse

/-- The window of the file is refused once the header is out. -/
def lateRefusal (cfg : Config) (sr : SessionRequest) : Bool :=
  sr.headers.contentLength ≠ 0 ∧ (sr.method = .get ∨ sr.method = .post) ∧
    (mkHttpRangeSet cfg sr.fileInfo.size sr).1 ≠ 0

/-- How many headers an answer takes.  `mk_user_init` answers for an unknown user
before its caller does, and a window refused after the header is answered again;
the request a plugin takes is not answered here. -/
def Plan.headers (ctx : Ctx) : Plan → Nat
  | .silent _ _ => 0
  | .error status _ | .refuse _ status _ => (statusKnown status).toNat
  | .noHome sr => 1 + (unknownUser ctx.sys sr).toNat
  | .send sr => 1 + (lateRefusal ctx.cfg sr).toNat
  | .noData _ | .redirect _ | .notModified _ => 1

theorem headerCount_append (out out' : List Out) :
    headerCount (out ++ out') = headerCount out + headerCount out' := List.countP_append

theorem headerCount_mkHeaderSend (ctx : Ctx) (sr : SessionRequest) :
    headerCount (mkHeaderSend ctx sr).out = (statusKnown sr.headers.status).toNat := by
  unfold mkHeaderSend statusKnown
  simp only
  split
  · next h => rw [decide_eq_true h]; rfl
  · next h => rw [decide_eq_false h]; rfl

theorem headerCount_mkHttpSendFile (ctx : Ctx) (sr : SessionRequest) :
    headerCount (mkHttpSendFile ctx sr).out = 0 := by
  unfold mkHttpSendFile
  simp only
  split
  · rfl
  · split <;> rfl

theorem headerCount_mkRequestError (ctx : Ctx) (status : Int) (sr : SessionRequest) :
    headerCount (mkRequestError ctx status sr).out = (statusKnown status).toNat := by
  unfold mkRequestError
  simp only
  split
  · rw [Res.after, headerCount_append, headerCount_mkHttpSendFile, headerCount_mkHeaderSend]
    rfl
  · rw [headerCount_append, headerCount_mkHeaderSend, Nat.add_eq_left]
    split
    · split <;> rfl
    · rfl

/-- The window of the file does not depend on the header sent before it. -/
theorem mkHttpRangeSet_mkHeaderSend (ctx : Ctx) (sr : SessionRequest) :
    mkHttpRangeSet ctx.cfg (mkHeaderSend ctx sr).sr.fileInfo.size (mkHeaderSend ctx sr).sr =
      ((mkHttpRangeSet ctx.cfg sr.fileInfo.size sr).1, { (mkHeaderSend ctx sr).sr with
        bytesOffset := (mkHttpRangeSet ctx.cfg sr.fileInfo.size sr).2.bytesOffset
        bytesToSend := (mkHttpRangeSet ctx.cfg sr.fileInfo.size sr).2.bytesToSend }) := by
  unfold mkHttpRangeSet
  by_cases hres : ctx.cfg.resume = true ∧ sr.range.data.isSome
  · rw [if_pos hres, if_pos (show _ ∧ (mkHeaderSend ctx sr).sr.range.data.isSome from hres)]
    rfl
  · rw [if_neg hres, if_neg (show ¬ (_ ∧ (mkHeaderSend ctx sr).sr.range.data.isSome) from hres)]
    rfl

theorem headerCount_mkHttpInitTail (ctx : Ctx) (sr : SessionRequest) :
    headerCount (mkHttpInitTail ctx sr).out =
      (statusKnown sr.headers.status).toNat + (lateRefusal ctx.cfg sr).toNat := by
  unfold mkHttpInitTail lateRefusal
  simp only [mkHttpRangeSet_mkHeaderSend]
  by_cases hcl : (mkHeaderSend ctx sr).sr.headers.contentLength = 0
  · rw [if_pos hcl, decide_eq_false fun h => h.1 hcl, headerCount_mkHeaderSend]
    rfl
  · rw [if_neg hcl]
    by_cases hm : (mkHeaderSend ctx sr).sr.method = .get ∨ (mkHeaderSend ctx sr).sr.method = .post
    · rw [if_pos hm]
      by_cases hr : (mkHttpRangeSet ctx.cfg sr.fileInfo.size sr).1 ≠ 0
      · rw [if_pos hr, decide_eq_true ⟨hcl, hm, hr⟩, Res.after, headerCount_append,
          headerCount_mkHeaderSend, headerCount_mkRequestError]
        rfl
      · rw [if_neg hr, decide_eq_false fun h => hr h.2.2, Res.after, headerCount_append,
          headerCount_mkHeaderSend, headerCount_mkHttpSendFile]
        rfl
    · rw [if_neg hm, decide_eq_false fun h => hm h.2.1, headerCount_mkHeaderSend]
      rfl

theorem statusKnown_of_plainStatus {status : Int} (h : plainStatus status = true) :
    statusKnown status = true := by
  simp only [plainStatus, Bool.or_eq_true, beq_iff_eq] at h
  rcases h with (rfl | rfl) | rfl <;> rfl

/-- A redirect is a header with status 301. -/
theorem mkHttpDirectoryRedirectCheck_some {ctx : Ctx} {sr : SessionRequest} {r : Res}
    (h : mkHttpDirectoryRedirectCheck ctx sr = some r) :
    ∃ sr', sr'.headers.status = mkRedirMoved ∧ sr'.flags = sr.flags ∧
      sr'.handledBy = sr.handledBy ∧ sr'.method = sr.method ∧ r = ⟨-1, { (mkHeaderSend ctx sr').sr with
      headers := { (mkHeaderSend ctx sr').sr.headers with location := none } },
      (mkHeaderSend ctx sr').out⟩ := by
  unfold mkHttpDirectoryRedirectCheck at h
  simp only at h
  split at h
  · contradiction
  · refine ⟨_, ?_, ?_, ?_, ?_, (Option.some.inj h).symm⟩ <;> rfl

/-- The number of headers of an answer, by its plan. -/
theorem Plan.headerCount_run {ctx : Ctx} {f : Flags} {plan : Plan} (h : plan.For ctx f) :
    headerCount (plan.run ctx).out = plan.headers ctx := by
  cases plan with
  | silent ret sr => rfl
  | error status sr => exact headerCount_mkRequestError ctx status sr
  | refuse ret status sr => exact headerCount_mkRequestError ctx status sr
  | noHome sr =>
      simp only [Plan.run, Res.after, headerCount_append, headerCount_mkRequestError, Plan.headers]
      rcases mkUserInit_cases ctx sr with ⟨path, huser, hknown⟩ | ⟨huser, hknown⟩ | ⟨huser, hknown⟩
      · rw [huser, hknown]
        rfl
      · rw [huser, hknown]
        rfl
      · rw [huser, hknown, headerCount_mkRequestError]
        rfl
  | noData sr =>
      simp only [Plan.run, Plan.headers]
      rcases mkMethodParseData_cases ctx sr with ⟨_, _, _, hdata⟩ | ⟨status, toc, hplain, hdata⟩
      · exact absurd (by rw [hdata]) (h.data sr rfl)
      · rw [hdata, headerCount_mkRequestError, statusKnown_of_plainStatus hplain]
        rfl
  | redirect sr =>
      obtain ⟨r, hr⟩ := Option.isSome_iff_exists.mp (h.location sr rfl)
      obtain ⟨sr', hstatus, _, _, _, rfl⟩ := mkHttpDirectoryRedirectCheck_some hr
      simp only [Plan.run, hr, Option.getD_some, headerCount_mkHeaderSend, hstatus, Plan.headers]
      rfl
  | notModified sr => exact headerCount_mkHeaderSend ctx _
  | send sr =>
      have hknown : statusKnown sr.headers.status = true := by
        rcases h.status sr rfl with hs | hs <;> rw [hs] <;> rfl
      simp only [Plan.run, headerCount_mkHttpInitTail, hknown, Plan.headers]
      rfl

end Monkey
