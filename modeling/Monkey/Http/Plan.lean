import Monkey.Http.Init

/-!
# Monkey.Http.Plan

How a request is answered is decided before anything is written for it.  The
`Plan` of a request is that decision; running it is what `mk_request_process`
does (`mkRequestProcess_eq`).  What holds of every answer is then proved by the
seven kinds of plan instead of the twenty return paths of four functions.

Each function of `Monkey.Http.Init` has one here with the same tests.  It returns the kind of
the answer, with the request as it is when that answer is begun, and writes nothing.  A home
directory that is not found and posted data that is refused are kinds of their own, because it
is the function that fails, and not its caller, that may have written the answer.
-/

namespace Monkey

/-! ## the decision -/

/-- The kinds of answer, each with the request as it is when it is answered. -/
inductive Plan
  /-- nothing is written: a plugin took the request, or stage 20 closes -/
  | silent (ret : Int) (sr : SessionRequest)
  /-- an error response, and its return value -/
  | error (status : Int) (sr : SessionRequest)
  /-- an error response, and a return value of the caller -/
  | refuse (ret status : Int) (sr : SessionRequest)
  /-- no home directory: `mk_user_init` failed -/
  | noHome (sr : SessionRequest)
  /-- no posted data: `mk_method_parse_data` failed -/
  | noData (sr : SessionRequest)
  /-- a directory without its slash -/
  | redirect (sr : SessionRequest)
  /-- a conditional GET on an unchanged file -/
  | notModified (sr : SessionRequest)
  /-- the header, then the window of the file -/
  | send (sr : SessionRequest)

/-- What a plan does. -/
def Plan.run (ctx : Ctx) : Plan → Res
  | .silent ret sr => ⟨ret, sr, []⟩
  | .error status sr => mkRequestError ctx status sr
  | .refuse ret status sr => { mkRequestError ctx status sr with ret := ret }
  | .noHome sr =>
      { (mkRequestError ctx mkClientNotFound (mkUserInit ctx sr).sr).after (mkUserInit ctx sr).out
        with ret := exitAbort }
  | .noData sr => mkMethodParseData ctx sr
  | .redirect sr => (mkHttpDirectoryRedirectCheck ctx sr).getD ⟨0, sr, []⟩
  | .notModified sr =>
      { mkHeaderSend ctx { sr with headers := { sr.headers with status := mkNotModified } } with
        ret := exitNormal }
  | .send sr => mkHttpInitTail ctx sr

/-! ## the plans of mk_http_init -/

def planSend (ctx : Ctx) (sr : SessionRequest) : Plan :=
  if sr.fileInfo.size > 0 then
    if ctx.sys.openFile (cstr sr.realPath) then .send { sr with fdFile := some (cstr sr.realPath) }
    else .error mkClientForbidden sr
  else .send sr

def planRange (ctx : Ctx) (sr : SessionRequest) : Plan :=
  match rangeStep ctx.cfg sr with
  | none => .error mkClientBadRequest (mkHttpRangeParse sr).2
  | some sr => planSend ctx sr

def planOk (ctx : Ctx) (sr : SessionRequest) : Plan :=
  let sr := { sr with
    headers := { sr.headers with
      status := mkHttpOk, location := none,
      contentLength := sr.fileInfo.size, realLength := sr.fileInfo.size } }
  if sr.method = .get ∨ sr.method = .head then
    planRange ctx { sr with
      headers := { sr.headers with contentType := ctx.sys.mimetype sr.realPath } }
  else planSend ctx { sr with headers := { sr.headers with contentType := [] } }

def planServe (ctx : Ctx) (sr : SessionRequest) : Plan :=
  if sr.method = .put ∨ sr.method = .delete ∨ sr.method = .unknown then
    .error mkServerNotImplemented sr
  else if sr.fileInfo.readAccess = false then .error mkClientForbidden sr
  else if sr.fileInfo.isDirectory = true then .error mkClientForbidden sr
  else if sr.fileInfo.size < 0 then .error mkClientNotFound sr
  else
    let sr := { sr with
      headers := { sr.headers with lastModified := sr.fileInfo.lastModification } }
    if notModified ctx.sys sr then .notModified sr else planOk ctx sr

def planStage30 (ctx : Ctx) (sr : SessionRequest) : Plan :=
  if sr.stage30Blocked then planServe ctx sr
  else
    match mkPluginStage30 ctx.sys sr with
    | (.continue, sr) => .silent mkPluginRetContinue sr
    | (.closeConx, sr) => .error (closeStatus sr) sr
    | (.finish, sr) => .silent exitNormal sr
    | (.notMe, sr) => planServe ctx sr

def planLink (ctx : Ctx) (sr : SessionRequest) : Plan :=
  if sr.fileInfo.isLink = true ∧ (ctx.cfg.symlink = false ∨ ctx.sys.readlink (cstr sr.realPath) = false)
  then .error mkClientForbidden sr
  else planStage30 ctx sr

def planFound (ctx : Ctx) (sr : SessionRequest) : Plan :=
  if sr.fileInfo.isDirectory = true then
    if (mkHttpDirectoryRedirectCheck ctx sr).isSome then .redirect sr
    else
      match mkRequestIndex ctx sr.realPath with
      | some path =>
          planLink ctx { sr with
            realPath := path, fileInfo := (mkFileGetInfo ctx.sys path sr.fileInfo).2 }
      | none => planLink ctx sr
  else planLink ctx sr

def planInit (ctx : Ctx) (sr : SessionRequest) : Plan :=
  let sr := composeRealPath sr
  let uri := sr.uriProcessed
  if (memmem (uri.data.getD []) uri.len httpDirectoryBackward).isSome then
    .error mkClientForbidden sr
  else
    match mkFileGetInfo ctx.sys (cstr sr.realPath) sr.fileInfo with
    | (ret, info) =>
        let sr := { sr with fileInfo := info }
        if ret = 0 then planFound ctx sr
        else
          match mkPluginStage30 ctx.sys sr with
          | (.closeConx, sr) => .error (closeStatus sr) sr
          | (.continue, sr) => .silent mkPluginRetContinue sr
          | (.finish, sr) => .silent exitNormal sr
          | (.notMe, sr) =>
              if sr.fileInfo.fileExists = false then .error mkClientNotFound sr
              else if sr.stage30Blocked = false then .error mkClientForbidden sr
              else planFound ctx sr

/-! ## the plan of mk_request_process -/

def planHttp (ctx : Ctx) (sr : SessionRequest) : Plan :=
  if mkPluginStage20 ctx.sys sr then .silent exitAbort sr else planInit ctx sr

def planMethod (ctx : Ctx) (sr : SessionRequest) : Plan :=
  if sr.method = .post ∨ sr.method = .put then
    if (mkMethodParseData ctx sr).ret ≠ 0 then .noData sr
    else planHttp ctx (mkMethodParseData ctx sr).sr
  else planHttp ctx sr

/-- The plan from the check for a user's home directory on. -/
def planHome (ctx : Ctx) (sr : SessionRequest) : Plan :=
  if isUserHome ctx.cfg sr then
    if (mkUserInit ctx sr).ret ≠ 0 then .noHome sr else planMethod ctx (mkUserInit ctx sr).sr
  else planMethod ctx sr

/-- The plan of a request whose header fields have been processed. -/
def planProcess (ctx : Ctx) (sr : SessionRequest) : Plan :=
  if (sr.uriProcessed.data.getD []).head? ≠ some 0x2f then .refuse exitNormal mkClientBadRequest sr
  else if sr.host.data = none ∧ sr.protocol = .http11 then
    .refuse exitNormal mkClientBadRequest sr
  else if sr.protocol = .unknown then .refuse exitAbort mkServerHttpVersionUnsup sr
  else planHome ctx (match sr.host.data with
    | some _ => { sr with hostConf := (mkConfigHostFind ctx.cfg sr.host).getD sr.hostConf }
    | none => sr)

/-- The plan of a request. -/
def mkRequestPlan (ctx : Ctx) (sr : SessionRequest) : Plan :=
  match mkRequestHeaderProcess ctx.cfg ctx.sys { sr with hostConf := ctx.cfg.defaultHost } with
  | (status, sr) =>
      if status < 0 then .refuse exitAbort mkClientBadRequest sr
      else planProcess ctx { sr with userHome := false }

/-- The user name in the URI of a home directory, when it fits. -/
def homeUser (sr : SessionRequest) : Option Bytes :=
  let data := sr.uriProcessed.data.getD []
  let len : Int := sr.uriProcessed.len
  if len ≤ 2 then none
  else
    let slash := mkStringCharSearch (data.drop 2) 0x2f (toInt len)
    let limit := if slash = -1 then toInt (len - 2) else slash
    if limit + 2 ≥ 255 then none else some (cstr ((data.drop 2).take limit.toNat))

/-- The home directory asked for is that of a user who does not exist. -/
def unknownUser (sys : Sys) (sr : SessionRequest) : Bool :=
  (homeUser sr).any fun user => (sys.getpwnam user).isNone

/-! ## running the plan is processing the request -/

section

variable (ctx : Ctx) (sr : SessionRequest)

theorem mkHttpInitSend_eq : mkHttpInitSend ctx sr = (planSend ctx sr).run ctx := by
  unfold mkHttpInitSend planSend
  split
  · split <;> rfl
  · rfl

theorem mkHttpInitRange_eq : mkHttpInitRange ctx sr = (planRange ctx sr).run ctx := by
  unfold mkHttpInitRange planRange
  cases rangeStep ctx.cfg sr with
  | none => rfl
  | some sr => exact mkHttpInitSend_eq ctx sr

theorem mkHttpInitOk_eq : mkHttpInitOk ctx sr = (planOk ctx sr).run ctx := by
  unfold mkHttpInitOk planOk
  simp only
  split
  · exact mkHttpInitRange_eq ctx _
  · exact mkHttpInitSend_eq ctx _

theorem mkHttpInitServe_eq : mkHttpInitServe ctx sr = (planServe ctx sr).run ctx := by
  unfold mkHttpInitServe planServe
  split
  · rfl
  split
  · rfl
  split
  · rfl
  split
  · rfl
  simp only
  split
  · rfl
  · exact mkHttpInitOk_eq ctx _

theorem mkHttpInitStage30_eq : mkHttpInitStage30 ctx sr = (planStage30 ctx sr).run ctx := by
  unfold mkHttpInitStage30 planStage30
  split
  · exact mkHttpInitServe_eq ctx sr
  · rcases mkPluginStage30 ctx.sys sr with ⟨ret, sr⟩
    cases ret
    · exact mkHttpInitServe_eq ctx sr
    all_goals rfl

theorem mkHttpInitLink_eq : mkHttpInitLink ctx sr = (planLink ctx sr).run ctx := by
  unfold mkHttpInitLink planLink
  split
  · rfl
  · exact mkHttpInitStage30_eq ctx sr

theorem mkHttpInitFound_eq : mkHttpInitFound ctx sr = (planFound ctx sr).run ctx := by
  unfold mkHttpInitFound planFound
  split
  · cases hcheck : mkHttpDirectoryRedirectCheck ctx sr with
    | some r => simp [Plan.run, hcheck]
    | none =>
        simp only [Option.isSome_none, Bool.false_eq_true, if_false]
        cases mkRequestIndex ctx sr.realPath with
        | some path => exact mkHttpInitLink_eq ctx _
        | none => exact mkHttpInitLink_eq ctx sr
  · exact mkHttpInitLink_eq ctx sr

theorem mkHttpInit_eq : mkHttpInit ctx sr = (planInit ctx sr).run ctx := by
  unfold mkHttpInit planInit
  simp only
  split
  · rfl
  split
  · exact mkHttpInitFound_eq ctx _
  · generalize mkPluginStage30 ctx.sys _ = answer
    rcases answer with ⟨ret, sr⟩
    cases ret
    · simp only
      split
      · rfl
      split
      · rfl
      · exact mkHttpInitFound_eq ctx sr
    all_goals rfl

theorem mkRequestProcessHttp_eq :
    mkRequestProcessHttp ctx sr = (planHttp ctx sr).run ctx := by
  unfold mkRequestProcessHttp planHttp
  split
  · rfl
  · exact mkHttpInit_eq ctx sr

/-- Posted data is accepted without a word, or refused with a plain status. -/
theorem mkMethodParseData_cases :
    (∃ toc type length, mkMethodParseData ctx sr = ⟨0, { sr with
        headersToc := toc, contentType := type, contentLength := length }, []⟩) ∨
      ∃ status toc, plainStatus status = true ∧ mkMethodParseData ctx sr =
        { mkRequestError ctx status { sr with headersToc := toc } with ret := -1 } := by
  unfold mkMethodParseData
  simp only
  split
  · exact .inr ⟨mkClientLengthRequired, sr.headersToc, rfl, rfl⟩
  split
  · exact .inr ⟨mkClientBadRequest, sr.headersToc, rfl, rfl⟩
  split
  · exact .inr ⟨mkClientRequestEntityTooLarge, sr.headersToc, rfl, rfl⟩
  split
  · exact .inr ⟨mkClientBadRequest, _, rfl, rfl⟩
  · exact .inl ⟨_, _, _, rfl⟩

theorem mkRequestProcessMethod_eq :
    mkRequestProcessMethod ctx sr = (planMethod ctx sr).run ctx := by
  unfold mkRequestProcessMethod planMethod
  split
  · simp only
    rcases mkMethodParseData_cases ctx sr with ⟨toc, type, length, hdata⟩ | ⟨status, toc, _, hdata⟩
    · rw [hdata]
      simp only [ne_eq, not_true_eq_false, if_false]
      exact mkRequestProcessHttp_eq ctx _
    · have hret : (mkMethodParseData ctx sr).ret ≠ 0 := by
        rw [hdata]
        exact (by decide : (-1 : Int) ≠ 0)
      rw [if_pos hret, if_pos hret]
      rfl
  · exact mkRequestProcessHttp_eq ctx sr

/-- A home directory is found without a word, or its user is unknown and answered,
or its name does not fit. -/
theorem mkUserInit_cases :
    (∃ path, mkUserInit ctx sr = ⟨0, { sr with realPath := path, userHome := true }, []⟩ ∧
        unknownUser ctx.sys sr = false) ∨
      (mkUserInit ctx sr = ⟨-1, sr, []⟩ ∧ unknownUser ctx.sys sr = false) ∨
      (mkUserInit ctx sr = { mkRequestError ctx mkClientNotFound sr with ret := -1 } ∧
        unknownUser ctx.sys sr = true) := by
  unfold mkUserInit unknownUser homeUser
  simp only
  by_cases hlen : (sr.uriProcessed.len : Int) ≤ 2
  · rw [if_pos hlen, if_pos hlen]
    exact .inr (.inl ⟨rfl, rfl⟩)
  · rw [if_neg hlen, if_neg hlen]
    generalize (if mkStringCharSearch _ _ _ = -1 then _ else _ : Int) = limit
    by_cases hlimit : limit + 2 ≥ 255
    · rw [if_pos hlimit, if_pos hlimit]
      exact .inr (.inl ⟨rfl, rfl⟩)
    · rw [if_neg hlimit, if_neg hlimit, Option.any_some]
      cases ctx.sys.getpwnam (cstr ((List.drop 2 (sr.uriProcessed.data.getD [])).take limit.toNat)) with
      | none => exact .inr (.inr ⟨rfl, rfl⟩)
      | some pwDir => exact .inl ⟨_, rfl, rfl⟩

theorem planHome_run : (planHome ctx sr).run ctx =
    if isUserHome ctx.cfg sr then
      let u := mkUserInit ctx sr
      if u.ret ≠ 0 then
        { (mkRequestError ctx mkClientNotFound u.sr).after u.out with ret := exitAbort }
      else (mkRequestProcessMethod ctx u.sr).after u.out
    else mkRequestProcessMethod ctx sr := by
  unfold planHome
  by_cases hhome : isUserHome ctx.cfg sr = true
  · simp only [if_pos hhome]
    rcases mkUserInit_cases ctx sr with ⟨path, huser, _⟩ | ⟨huser, _⟩ | ⟨huser, _⟩
    · rw [huser]
      simp only [ne_eq, not_true_eq_false, if_false]
      exact (mkRequestProcessMethod_eq ctx _).symm
    all_goals
      have hret : (mkUserInit ctx sr).ret ≠ 0 := by
        rw [huser]
        exact (by decide : (-1 : Int) ≠ 0)
      rw [if_pos hret, if_pos hret]
      rfl
  · rw [if_neg hhome, if_neg hhome]
    exact (mkRequestProcessMethod_eq ctx sr).symm

/-- **Plan and process**: processing a request is deciding on its plan and running
it. -/
theorem mkRequestProcess_eq : mkRequestProcess ctx sr = (mkRequestPlan ctx sr).run ctx := by
  unfold mkRequestProcess mkRequestPlan
  simp only
  split
  · rfl
  unfold planProcess
  split
  · rfl
  split
  · rfl
  split
  · rfl
  · exact (planHome_run ctx _).symm

end

end Monkey
