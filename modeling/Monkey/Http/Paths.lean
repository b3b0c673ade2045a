import Monkey.Http.Answer

/-!
# Monkey.Http.Paths

The file system as `mk_http_init` sees it.  `mkHttpInitAccesses` lists the system
calls made on paths, in their order, up to the answer; that the list is complete is
`planInit_congr`: a file system that answers these calls alike leads to the same
plan.  Configured error pages are opened by `mk_request_error` and are not listed.

Every path in the list is the document root followed by the processed URI, or one
of the index files below it, unless a stage 30 plugin has replaced the path.
-/

namespace Monkey

/-! ## accesses -/

/-- A system call of `mk_http_init` on a path. -/
inductive Access
  | stat (path : Bytes)
  | access (path : Bytes)
  | readlink (path : Bytes)
  | openFile (path : Bytes)
deriving DecidableEq, Repr

def Access.path : Access → Bytes
  | .stat path => path
  | .access path => path
  | .readlink path => path
  | .openFile path => path

/-- Two systems answer a call alike. -/
def Access.Agrees (sys sys' : Sys) : Access → Prop
  | .stat path => sys'.stat path = sys.stat path
  | .access path => sys'.access path = sys.access path
  | .readlink path => sys'.readlink path = sys.readlink path
  | .openFile path => sys'.openFile path = sys.openFile path

def accessesSend (sr : SessionRequest) : List Access :=
  if sr.fileInfo.size > 0 then [.openFile (cstr sr.realPath)] else []

/-- A refused range is answered before the file is opened. -/
def accessesRange (ctx : Ctx) (sr : SessionRequest) : List Access :=
  match rangeStep ctx.cfg sr with
  | none => []
  | some sr => accessesSend sr

def accessesOk (ctx : Ctx) (sr : SessionRequest) : List Access :=
  let sr := { sr with
    headers := { sr.headers with
      status := mkHttpOk, location := none,
      contentLength := sr.fileInfo.size, realLength := sr.fileInfo.size } }
  if sr.method = .get ∨ sr.method = .head then
    accessesRange ctx { sr with
      headers := { sr.headers with contentType := ctx.sys.mimetype sr.realPath } }
  else accessesSend { sr with headers := { sr.headers with contentType := [] } }

def accessesServe (ctx : Ctx) (sr : SessionRequest) : List Access :=
  if sr.method = .put ∨ sr.method = .delete ∨ sr.method = .unknown then []
  else if sr.fileInfo.readAccess = false then []
  else if sr.fileInfo.isDirectory = true then []
  else if sr.fileInfo.size < 0 then []
  else
    let sr := { sr with
      headers := { sr.headers with lastModified := sr.fileInfo.lastModification } }
    if notModified ctx.sys sr then [] else accessesOk ctx sr

def accessesStage30 (ctx : Ctx) (sr : SessionRequest) : List Access :=
  if sr.stage30Blocked then accessesServe ctx sr
  else
    match mkPluginStage30 ctx.sys sr with
    | (.continue, _) => []
    | (.closeConx, _) => []
    | (.finish, _) => []
    | (.notMe, sr) => accessesServe ctx sr

def accessesLink (ctx : Ctx) (sr : SessionRequest) : List Access :=
  if sr.fileInfo.isLink = true then
    if ctx.cfg.symlink = false then []
    else
      .readlink (cstr sr.realPath) ::
        if ctx.sys.readlink (cstr sr.realPath) = false then [] else accessesStage30 ctx sr
  else accessesStage30 ctx sr

/-- The calls of `mk_request_index` on the candidates left: one for each, up to the
first that exists. -/
def accessesIndex (sys : Sys) : List Bytes → List Access
  | [] => []
  | path :: paths => .access path :: if sys.access path then [] else accessesIndex sys paths

/-- The candidates of `mk_request_index`. -/
def indexPaths (cfg : Config) (pathfile : Bytes) : List Bytes :=
  cfg.indexFiles.map fun entry => (cstr pathfile ++ entry).take (maxPath - 1)

def accessesFound (ctx : Ctx) (sr : SessionRequest) : List Access :=
  if sr.fileInfo.isDirectory = true then
    if (mkHttpDirectoryRedirectCheck ctx sr).isSome then []
    else
      accessesIndex ctx.sys (indexPaths ctx.cfg sr.realPath) ++
        match mkRequestIndex ctx sr.realPath with
        | some path =>
            .stat path :: accessesLink ctx { sr with
              realPath := path, fileInfo := (mkFileGetInfo ctx.sys path sr.fileInfo).2 }
        | none => accessesLink ctx sr
  else accessesLink ctx sr

/-- The calls `mk_http_init` makes on paths. -/
def mkHttpInitAccesses (ctx : Ctx) (sr : SessionRequest) : List Access :=
  let sr := composeRealPath sr
  let uri := sr.uriProcessed
  if (memmem (uri.data.getD []) uri.len httpDirectoryBackward).isSome then []
  else
    .stat (cstr sr.realPath) ::
      match mkFileGetInfo ctx.sys (cstr sr.realPath) sr.fileInfo with
      | (ret, info) =>
          let sr := { sr with fileInfo := info }
          if ret = 0 then accessesFound ctx sr
          else
            match mkPluginStage30 ctx.sys sr with
            | (.closeConx, _) => []
            | (.continue, _) => []
            | (.finish, _) => []
            | (.notMe, sr) =>
                if sr.fileInfo.fileExists = false then []
                else if sr.stage30Blocked = false then []
                else accessesFound ctx sr

/-! ## the list is complete -/

/-- A file system for the four calls. -/
structure Files where
  stat : Bytes → StatResult
  access : Bytes → Bool
  readlink : Bytes → Bool
  openFile : Bytes → Bool

/-- The same surroundings over another file system. -/
def Ctx.withFiles (ctx : Ctx) (fs : Files) : Ctx :=
  { ctx with sys := { ctx.sys with
      stat := fs.stat, access := fs.access, readlink := fs.readlink, openFile := fs.openFile } }

section

variable {ctx : Ctx} {fs : Files} {sr : SessionRequest}

/-- The other file system answers the calls listed as the first does. -/
def Ctx.Alike (ctx : Ctx) (fs : Files) (calls : List Access) : Prop :=
  ∀ a ∈ calls, a.Agrees ctx.sys (ctx.withFiles fs).sys

theorem Ctx.Alike.head {a : Access} {calls : List Access} (h : ctx.Alike fs (a :: calls)) :
    a.Agrees ctx.sys (ctx.withFiles fs).sys :=
  h a List.mem_cons_self

theorem Ctx.Alike.tail {a : Access} {calls : List Access} (h : ctx.Alike fs (a :: calls)) :
    ctx.Alike fs calls :=
  fun b hb => h b (List.mem_cons_of_mem a hb)

theorem planSend_congr (h : ctx.Alike fs (accessesSend sr)) :
    planSend (ctx.withFiles fs) sr = planSend ctx sr := by
  unfold accessesSend at h
  unfold planSend
  split
  · next hsize =>
    rw [if_pos hsize] at h
    rw [show (ctx.withFiles fs).sys.openFile (cstr sr.realPath) = ctx.sys.openFile (cstr sr.realPath)
      from h.head]
  · rfl

theorem planRange_congr (h : ctx.Alike fs (accessesRange ctx sr)) :
    planRange (ctx.withFiles fs) sr = planRange ctx sr := by
  unfold accessesRange at h
  unfold planRange
  rw [show rangeStep (ctx.withFiles fs).cfg sr = rangeStep ctx.cfg sr from rfl]
  cases hrange : rangeStep ctx.cfg sr with
  | none => rfl
  | some sr =>
    rw [hrange] at h
    exact planSend_congr h

theorem planOk_congr (h : ctx.Alike fs (accessesOk ctx sr)) :
    planOk (ctx.withFiles fs) sr = planOk ctx sr := by
  unfold accessesOk at h
  unfold planOk
  simp only at h ⊢
  split
  · next hmethod =>
    rw [if_pos hmethod] at h
    exact planRange_congr h
  · next hmethod =>
    rw [if_neg hmethod] at h
    exact planSend_congr h

theorem planServe_congr (h : ctx.Alike fs (accessesServe ctx sr)) :
    planServe (ctx.withFiles fs) sr = planServe ctx sr := by
  unfold accessesServe at h
  unfold planServe
  split_ifs at h ⊢
  · rfl
  · rfl
  · rfl
  · rfl
  simp only at h ⊢
  rw [show notModified (ctx.withFiles fs).sys = notModified ctx.sys from rfl]
  split
  · rfl
  · next hmod =>
    rw [if_neg hmod] at h
    exact planOk_congr h

theorem planStage30_congr (h : ctx.Alike fs (accessesStage30 ctx sr)) :
    planStage30 (ctx.withFiles fs) sr = planStage30 ctx sr := by
  unfold accessesStage30 at h
  unfold planStage30
  rw [show mkPluginStage30 (ctx.withFiles fs).sys sr = mkPluginStage30 ctx.sys sr from rfl]
  split
  · next hblocked =>
    rw [if_pos hblocked] at h
    exact planServe_congr h
  · next hblocked =>
    rw [if_neg hblocked] at h
    rcases hanswer : mkPluginStage30 ctx.sys sr with ⟨ret, sr'⟩
    rw [hanswer] at h
    cases ret with
    | notMe => exact planServe_congr h
    | «continue» => rfl
    | closeConx => rfl
    | finish => rfl

theorem planLink_congr (h : ctx.Alike fs (accessesLink ctx sr)) :
    planLink (ctx.withFiles fs) sr = planLink ctx sr := by
  unfold accessesLink at h
  unfold planLink
  rw [show (ctx.withFiles fs).cfg = ctx.cfg from rfl]
  by_cases hlink : sr.fileInfo.isLink = true
  · rw [if_pos hlink] at h
    by_cases hsym : ctx.cfg.symlink = false
    · rw [if_pos ⟨hlink, .inl hsym⟩, if_pos ⟨hlink, .inl hsym⟩]
    · rw [if_neg hsym] at h
      rw [show (ctx.withFiles fs).sys.readlink (cstr sr.realPath) =
        ctx.sys.readlink (cstr sr.realPath) from h.head]
      have hrest := h.tail
      split
      · rfl
      · next hread =>
        rw [if_neg fun hfail => hread ⟨hlink, .inr hfail⟩] at hrest
        exact planStage30_congr hrest
  · rw [if_neg hlink] at h
    rw [if_neg fun hboth => hlink hboth.1, if_neg fun hboth => hlink hboth.1]
    exact planStage30_congr h

theorem find?_access_congr {paths : List Bytes} (h : ctx.Alike fs (accessesIndex ctx.sys paths)) :
    paths.find? (ctx.withFiles fs).sys.access = paths.find? ctx.sys.access := by
  induction paths with
  | nil => rfl
  | cons path paths ih =>
    unfold accessesIndex at h
    rw [List.find?_cons, List.find?_cons,
      show (ctx.withFiles fs).sys.access path = ctx.sys.access path from h.head]
    cases hpath : ctx.sys.access path with
    | true => rfl
    | false =>
      have hrest := h.tail
      rw [if_neg (by rw [hpath]; exact Bool.false_ne_true)] at hrest
      exact ih hrest

theorem mkFileGetInfo_congr {path : Bytes}
    (h : (Access.stat path).Agrees ctx.sys (ctx.withFiles fs).sys) (info : FileInfo) :
    mkFileGetInfo (ctx.withFiles fs).sys path info = mkFileGetInfo ctx.sys path info := by
  unfold mkFileGetInfo
  rw [show (ctx.withFiles fs).sys.stat path = ctx.sys.stat path from h]

theorem planFound_congr (h : ctx.Alike fs (accessesFound ctx sr)) :
    planFound (ctx.withFiles fs) sr = planFound ctx sr := by
  unfold accessesFound at h
  unfold planFound
  rw [show mkHttpDirectoryRedirectCheck (ctx.withFiles fs) sr =
    mkHttpDirectoryRedirectCheck ctx sr from rfl]
  split_ifs at h ⊢
  · rfl
  · have hindex : mkRequestIndex (ctx.withFiles fs) sr.realPath = mkRequestIndex ctx sr.realPath :=
      find?_access_congr fun a ha => h a (List.mem_append_left _ ha)
    have hrest : ctx.Alike fs _ := fun a ha => h a (List.mem_append_right _ ha)
    rw [hindex]
    cases hpath : mkRequestIndex ctx sr.realPath with
    | some path =>
      rw [hpath] at hrest
      simp only [mkFileGetInfo_congr hrest.head]
      exact planLink_congr hrest.tail
    | none =>
      rw [hpath] at hrest
      exact planLink_congr hrest
  · exact planLink_congr h

/-- **The list is complete**: the plan depends on the file system through the calls
listed only. -/
theorem planInit_congr (h : ctx.Alike fs (mkHttpInitAccesses ctx sr)) :
    planInit (ctx.withFiles fs) sr = planInit ctx sr := by
  unfold mkHttpInitAccesses at h
  unfold planInit
  simp only at h ⊢
  split
  · rfl
  · next hback =>
    rw [if_neg hback] at h
    rw [mkFileGetInfo_congr h.head]
    have hrest := h.tail
    split
    · next hret =>
      rw [if_pos hret] at hrest
      exact planFound_congr hrest
    · next hret =>
      rw [if_neg hret] at hrest
      rw [show mkPluginStage30 (ctx.withFiles fs).sys = mkPluginStage30 ctx.sys from rfl]
      rcases hanswer : mkPluginStage30 ctx.sys _ with ⟨ret, sr'⟩
      rw [hanswer] at hrest
      cases ret with
      | notMe =>
        simp only at hrest ⊢
        split_ifs at hrest ⊢
        · rfl
        · rfl
        · exact planFound_congr hrest
      | «continue» => rfl
      | closeConx => rfl
      | finish => rfl

end

/-! ## where the paths lie -/

/-- A path itself, or an index file in it, cut to the buffer of `mk_http_init`. -/
def Below (cfg : Config) (base path : Bytes) : Prop :=
  path = base ∨ ∃ entry ∈ cfg.indexFiles, path = (base ++ entry).take (maxPath - 1)

/-- A path some stage 30 plugin puts in the place of the request's. -/
def Overwrites (sys : Sys) (path : Bytes) : Prop :=
  ∃ s30 ∈ sys.stage30, ∃ sr, (s30 sr).realPath = some path

/-- Below the path composed for the request, or below one of a plugin. -/
def Confined (ctx : Ctx) (root path : Bytes) : Prop :=
  Below ctx.cfg root path ∨ ∃ p, Overwrites ctx.sys p ∧ Below ctx.cfg (cstr p) path

section

variable {ctx : Ctx} {sr : SessionRequest}

theorem stage30Loop_realPath {stm : List (SessionRequest → Stage30Answer)}
    (hstm : ∀ s30 ∈ stm, s30 ∈ ctx.sys.stage30) (sr : SessionRequest) :
    (stage30Loop stm sr).2.realPath = sr.realPath ∨
      Overwrites ctx.sys (stage30Loop stm sr).2.realPath := by
  induction stm generalizing sr with
  | nil => exact .inl rfl
  | cons s30 stm ih =>
    have happly : ((s30 sr).apply sr).realPath = sr.realPath ∨
        Overwrites ctx.sys ((s30 sr).apply sr).realPath := by
      unfold Stage30Answer.apply
      cases hpath : (s30 sr).realPath with
      | none => exact .inl rfl
      | some p => exact .inr ⟨s30, hstm s30 List.mem_cons_self, sr, hpath⟩
    unfold stage30Loop
    simp only
    split
    · rcases ih (fun s hs => hstm s (List.mem_cons_of_mem s30 hs)) ((s30 sr).apply sr) with h | h
      · rwa [h]
      · exact .inr h
    · exact happly

theorem mkPluginStage30_realPath (sr : SessionRequest) :
    (mkPluginStage30 ctx.sys sr).2.realPath = sr.realPath ∨
      Overwrites ctx.sys (mkPluginStage30 ctx.sys sr).2.realPath := by
  unfold mkPluginStage30
  split
  · exact .inl rfl
  · exact stage30Loop_realPath (fun _ hs => hs) sr

theorem accessesSend_path {a : Access} (h : a ∈ accessesSend sr) : a.path = cstr sr.realPath := by
  unfold accessesSend at h
  split at h
  · rw [List.mem_singleton.mp h]
    rfl
  · exact absurd h List.not_mem_nil

theorem accessesOk_path {a : Access} (h : a ∈ accessesOk ctx sr) : a.path = cstr sr.realPath := by
  unfold accessesOk accessesRange at h
  simp only at h
  split at h
  · split at h
    · exact absurd h List.not_mem_nil
    · next hrange =>
      obtain ⟨headers, rfl⟩ := rangeStep_eq hrange
      exact accessesSend_path h
  · exact accessesSend_path h

theorem accessesServe_path {a : Access} (h : a ∈ accessesServe ctx sr) :
    a.path = cstr sr.realPath := by
  unfold accessesServe at h
  simp only at h
  split_ifs at h
  any_goals exact absurd h List.not_mem_nil
  have hpath := accessesOk_path h
  exact hpath

theorem accessesStage30_path {a : Access} (h : a ∈ accessesStage30 ctx sr) :
    a.path = cstr sr.realPath ∨ ∃ p, Overwrites ctx.sys p ∧ a.path = cstr p := by
  unfold accessesStage30 at h
  split at h
  · exact .inl (accessesServe_path h)
  · have hreal := @mkPluginStage30_realPath ctx sr
    rcases hanswer : mkPluginStage30 ctx.sys sr with ⟨ret, sr'⟩
    rw [hanswer] at h hreal
    cases ret with
    | notMe =>
      have hpath := accessesServe_path h
      rcases hreal with hreal | hreal
      · exact .inl (hreal ▸ hpath)
      · exact .inr ⟨sr'.realPath, hreal, hpath⟩
    | «continue» => exact absurd h List.not_mem_nil
    | closeConx => exact absurd h List.not_mem_nil
    | finish => exact absurd h List.not_mem_nil

theorem accessesLink_path {a : Access} (h : a ∈ accessesLink ctx sr) :
    a.path = cstr sr.realPath ∨ ∃ p, Overwrites ctx.sys p ∧ a.path = cstr p := by
  unfold accessesLink at h
  split_ifs at h
  · exact absurd h List.not_mem_nil
  · rw [List.mem_singleton.mp h]
    exact .inl rfl
  · rcases List.mem_cons.mp h with rfl | h
    · exact .inl rfl
    · exact accessesStage30_path h
  · exact accessesStage30_path h

theorem accessesIndex_path {sys : Sys} {paths : List Bytes} {a : Access}
    (h : a ∈ accessesIndex sys paths) : a.path ∈ paths := by
  induction paths with
  | nil => exact absurd h List.not_mem_nil
  | cons path paths ih =>
    unfold accessesIndex at h
    rcases List.mem_cons.mp h with rfl | h
    · exact List.mem_cons_self
    · split at h
      · exact absurd h List.not_mem_nil
      · exact List.mem_cons_of_mem path (ih h)

/-- The path of an index file is a C string. -/
theorem cstr_indexPath (hnames : ∀ entry ∈ ctx.cfg.indexFiles, (0 : UInt8) ∉ entry)
    {pathfile path : Bytes} (h : path ∈ indexPaths ctx.cfg pathfile) : cstr path = path := by
  obtain ⟨entry, hentry, rfl⟩ := List.mem_map.mp h
  apply cstr_eq_self
  intro hnul
  rcases List.mem_append.mp (List.mem_of_mem_take hnul) with hbase | hname
  · exact zero_notMem_cstr pathfile hbase
  · exact hnames entry hentry hname

theorem below_indexPath {pathfile path : Bytes} (h : path ∈ indexPaths ctx.cfg pathfile) :
    Below ctx.cfg (cstr pathfile) path := by
  obtain ⟨entry, hentry, rfl⟩ := List.mem_map.mp h
  exact .inr ⟨entry, hentry, rfl⟩

theorem accessesFound_path (hnames : ∀ entry ∈ ctx.cfg.indexFiles, (0 : UInt8) ∉ entry)
    {a : Access} (h : a ∈ accessesFound ctx sr) : Confined ctx (cstr sr.realPath) a.path := by
  -- the link check and what follows it, on a path that is already known to be below
  have hlink : ∀ sr', Below ctx.cfg (cstr sr.realPath) (cstr sr'.realPath) →
      a ∈ accessesLink ctx sr' → Confined ctx (cstr sr.realPath) a.path := by
    intro sr' hbelow ha
    rcases accessesLink_path ha with hpath | ⟨p, hp, hpath⟩
    · exact .inl (hpath ▸ hbelow)
    · exact .inr ⟨p, hp, .inl hpath⟩
  unfold accessesFound at h
  split_ifs at h
  · exact absurd h List.not_mem_nil
  · rcases List.mem_append.mp h with h | h
    · exact .inl (below_indexPath (accessesIndex_path h))
    · cases hindex : mkRequestIndex ctx sr.realPath with
      | none =>
        rw [hindex] at h
        exact hlink sr (.inl rfl) h
      | some path =>
        rw [hindex] at h
        have hmem : path ∈ indexPaths ctx.cfg sr.realPath := List.mem_of_find?_eq_some hindex
        rcases List.mem_cons.mp h with rfl | h
        · exact .inl (below_indexPath hmem)
        · refine hlink _ ?_ h
          rw [cstr_indexPath hnames hmem]
          exact below_indexPath hmem
  · exact hlink sr (.inl rfl) h

/-- Every path `mk_http_init` looks at is below the one it has composed. -/
theorem mkHttpInitAccesses_path (hnames : ∀ entry ∈ ctx.cfg.indexFiles, (0 : UInt8) ∉ entry)
    {a : Access} (h : a ∈ mkHttpInitAccesses ctx sr) :
    Confined ctx (cstr (composeRealPath sr).realPath) a.path := by
  unfold mkHttpInitAccesses at h
  simp only at h
  split at h
  · exact absurd h List.not_mem_nil
  rcases List.mem_cons.mp h with rfl | h
  · exact .inl (.inl rfl)
  split at h
  · have hfound := accessesFound_path hnames h
    exact hfound
  · rcases hanswer : mkPluginStage30 ctx.sys { composeRealPath sr with
      fileInfo := (mkFileGetInfo ctx.sys (cstr (composeRealPath sr).realPath)
        (composeRealPath sr).fileInfo).2 } with ⟨ret, sr'⟩
    have hreal := @mkPluginStage30_realPath ctx { composeRealPath sr with
      fileInfo := (mkFileGetInfo ctx.sys (cstr (composeRealPath sr).realPath)
        (composeRealPath sr).fileInfo).2 }
    rw [hanswer] at h hreal
    cases ret with
    | notMe =>
      simp only at h
      split_ifs at h
      · exact absurd h List.not_mem_nil
      · exact absurd h List.not_mem_nil
      · have hfound := accessesFound_path hnames h
        rcases hreal with hreal | hreal
        · rw [hreal] at hfound
          exact hfound
        · rcases hfound with hfound | hfound
          · exact .inr ⟨sr'.realPath, hreal, hfound⟩
          · exact .inr hfound
    | «continue» => exact absurd h List.not_mem_nil
    | closeConx => exact absurd h List.not_mem_nil
    | finish => exact absurd h List.not_mem_nil

end

/-! ## the processed URI -/

def passStage20 (ctx : Ctx) (sr : SessionRequest) : Option SessionRequest :=
  if mkPluginStage20 ctx.sys sr then none else some sr

def passMethod (ctx : Ctx) (sr : SessionRequest) : Option SessionRequest :=
  if sr.method = .post ∨ sr.method = .put then
    if (mkMethodParseData ctx sr).ret ≠ 0 then none
    else passStage20 ctx (mkMethodParseData ctx sr).sr
  else passStage20 ctx sr

def passHome (ctx : Ctx) (sr : SessionRequest) : Option SessionRequest :=
  if isUserHome ctx.cfg sr then
    if (mkUserInit ctx sr).ret ≠ 0 then none else passMethod ctx (mkUserInit ctx sr).sr
  else passMethod ctx sr

def passProcess (ctx : Ctx) (sr : SessionRequest) : Option SessionRequest :=
  if (sr.uriProcessed.data.getD []).head? ≠ some 0x2f then none
  else if sr.host.data = none ∧ sr.protocol = .http11 then none
  else if sr.protocol = .unknown then none
  else passHome ctx (match sr.host.data with
    | some _ => { sr with hostConf := (mkConfigHostFind ctx.cfg sr.host).getD sr.hostConf }
    | none => sr)

/-- The request `mk_request_process` hands to `mk_http_init`; `none` when it is
answered before. -/
def httpInitRequest (ctx : Ctx) (sr : SessionRequest) : Option SessionRequest :=
  match mkRequestHeaderProcess ctx.cfg ctx.sys { sr with hostConf := ctx.cfg.defaultHost } with
  | (status, sr) =>
      if status < 0 then none else passProcess ctx { sr with userHome := false }

section

variable {ctx : Ctx} {sr sr' : SessionRequest}

/-- What the steps before `mk_http_init` keep of a request. -/
def SessionRequest.uris (sr : SessionRequest) : MkPointer × MkPointer := (sr.uri, sr.uriProcessed)

theorem passStage20_spec (h : passStage20 ctx sr = some sr') :
    sr'.uris = sr.uris ∧ planHttp ctx sr = planInit ctx sr' := by
  unfold passStage20 at h
  unfold planHttp
  split at h
  · contradiction
  · next hstage =>
    obtain rfl := Option.some.inj h
    exact ⟨rfl, if_neg hstage⟩

theorem passMethod_spec (h : passMethod ctx sr = some sr') :
    sr'.uris = sr.uris ∧ planMethod ctx sr = planInit ctx sr' := by
  unfold passMethod at h
  unfold planMethod
  split_ifs at h ⊢ with hmethod hret
  · obtain ⟨huris, hplan⟩ := passStage20_spec h
    rcases mkMethodParseData_cases ctx sr with ⟨toc, type, length, hdata⟩ | ⟨status, toc, _, hdata⟩
    · exact ⟨huris.trans (by rw [hdata]; rfl), hplan⟩
    · exact absurd (by rw [hdata]; exact (by decide : (-1 : Int) ≠ 0)) hret
  · exact passStage20_spec h

theorem passHome_spec (h : passHome ctx sr = some sr') :
    sr'.uris = sr.uris ∧ planHome ctx sr = planInit ctx sr' := by
  unfold passHome at h
  unfold planHome
  split_ifs at h ⊢ with hhome hret
  · obtain ⟨huris, hplan⟩ := passMethod_spec h
    rcases mkUserInit_cases ctx sr with ⟨path, huser, _⟩ | ⟨huser, _⟩ | ⟨huser, _⟩
    · exact ⟨huris.trans (by rw [huser]; rfl), hplan⟩
    all_goals exact absurd (by rw [huser]; exact (by decide : (-1 : Int) ≠ 0)) hret
  · exact passMethod_spec h

theorem passProcess_spec (h : passProcess ctx sr = some sr') :
    (sr'.uris = sr.uris ∧ planProcess ctx sr = planInit ctx sr') ∧
      (sr.uriProcessed.data.getD []).head? = some 0x2f := by
  unfold passProcess at h
  unfold planProcess
  split_ifs at h ⊢ with hslash
  refine ⟨?_, not_not.mp hslash⟩
  cases hhost : sr.host.data with
  | some name =>
    rw [hhost] at h
    have hspec := passHome_spec h
    exact hspec
  | none =>
    rw [hhost] at h
    exact passHome_spec h

/-- A range inside the string has no NUL. -/
theorem mkPointerCreate_no_nul {buf : Bytes} {init stop : Int} (hinit : 0 ≤ init)
    (hlt : init < stop) (hstop : stop ≤ strlen buf) : 0 ∉ (mkPointerCreate buf init stop).text := by
  have hlen : (mkPointerCreate buf init stop).len ≤ (stop - init).toNat := by
    simp only [mkPointerCreate, if_pos hlt.ne]
    unfold toULong
    omega
  intro hnul
  have hmem : (0 : UInt8) ∈ (buf.drop init.toNat).take (stop - init).toNat :=
    (List.take_subset_take_left _ hlen) hnul
  have hcstr : (buf.drop init.toNat).take (stop - init).toNat =
      ((cstr buf).drop init.toNat).take (stop - init).toNat := by
    rw [← take_strlen, List.drop_take, List.take_take]
    congr 1
    omega
  rw [hcstr] at hmem
  exact zero_notMem_cstr buf (List.mem_of_mem_drop (List.mem_of_mem_take hmem))

/-- The last blank of the first line is a byte of the string. -/
theorem lastBlank_lt {sys : Sys} {body : Bytes} (hline : (strchr body 0x0a).isSome)
    (hpos : 0 ≤ mkStringCharSearchR body 0x20 (indexOf sys body 0x0a)) :
    mkStringCharSearchR body 0x20 (indexOf sys body 0x0a) < strlen body ∧
      (strchr body 0x20).isSome := by
  obtain ⟨k, hk⟩ := Option.isSome_iff_exists.mp hline
  have hkl := strchr_lt hk
  unfold mkStringCharSearchR indexOf at hpos ⊢
  rw [hk] at hpos ⊢
  simp only [Option.map_some, Option.getD_some] at hpos ⊢
  generalize hL : (if Int.ofNat k ≤ 0 then strlen body else (Int.ofNat k).toNat) = limit at hpos ⊢
  have hlimit : limit ≤ strlen body := by
    rw [← hL]
    split
    · exact le_rfl
    · exact hkl.le
  cases hq : memrchr body 0x20 limit with
  | none => rw [hq] at hpos; exact absurd hpos (by decide)
  | some q =>
    obtain ⟨hlt, hmem⟩ := memrchr_spec hq
    refine ⟨Int.ofNat_lt.mpr (by omega), ?_⟩
    have hin : (0x20 : UInt8) ∈ cstr body := by
      rw [← take_strlen]
      exact List.take_subset_take_left _ hlimit hmem
    rw [strchr, List.findIdx?_isSome]
    exact List.any_eq_true.mpr ⟨_, hin, beq_self_eq_true _⟩

/-- The URI is a nonempty range that ends before the last blank. -/
theorem mkRequestUriProcess_uri {body : Bytes} {uriInit uriEnd : Int} (protInit : Int)
    (sr : SessionRequest) (hle : uriInit ≤ uriEnd) :
    ∃ stop, uriInit < stop ∧ stop ≤ uriEnd + 1 ∧
      (mkRequestUriProcess body uriInit uriEnd protInit sr).uri =
        mkPointerCreate body uriInit stop := by
  unfold mkRequestUriProcess
  simp only
  split
  · exact ⟨_, by omega, by omega, rfl⟩
  · exact ⟨uriEnd + 1, by omega, le_rfl, rfl⟩

/-- The processed URI of a URI. -/
def processedUri (uri : MkPointer) : MkPointer :=
  (mkUtilsUrlDecode uri).elim uri fun temp => ⟨some temp, strlen temp⟩

/-- The text of a URI once processed: the decoded bytes up to their first NUL, or
the URI itself when nothing was decoded. -/
def uriText (uri : MkPointer) : Bytes := (mkUtilsUrlDecode uri).elim uri.text cstr

theorem processedUri_text (uri : MkPointer) : (processedUri uri).text = uriText uri := by
  unfold processedUri uriText
  cases mkUtilsUrlDecode uri with
  | none => rfl
  | some temp => exact take_strlen temp

theorem processedUri_head {uri : MkPointer} (hlen : 1 ≤ uri.len)
    (hhead : ((processedUri uri).data.getD []).head? = some 0x2f) :
    (uriText uri).head? = some 0x2f := by
  unfold processedUri at hhead
  unfold uriText
  cases htemp : mkUtilsUrlDecode uri with
  | none =>
    rw [htemp, Option.elim_none] at hhead
    rw [Option.elim_none, MkPointer.text, List.head?_take, if_neg (by omega)]
    exact hhead
  | some temp =>
    rw [htemp, Option.elim_some, Option.getD_some] at hhead
    obtain ⟨rest, rfl⟩ : ∃ rest, temp = 0x2f :: rest := List.head?_eq_some_iff.mp hhead
    rw [Option.elim_some, cstr, List.takeWhile_cons_of_pos (by decide), List.head?_cons]

theorem mkRequestUriDecode_uris (sr : SessionRequest) :
    (mkRequestUriDecode sr).uris = (sr.uri, processedUri sr.uri) := by
  have huri : (mkRequestUriDecode sr).uri = sr.uri := by
    unfold mkRequestUriDecode
    rfl
  have hprocessed : (mkRequestUriDecode sr).uriProcessed = processedUri sr.uri := by
    unfold mkRequestUriDecode processedUri
    cases mkUtilsUrlDecode sr.uri <;> rfl
  rw [SessionRequest.uris, huri, hprocessed]

/-- The URI of a request whose first line is accepted. -/
theorem mkRequestHeaderProcess_uri {cfg : Config} {sys : Sys}
    (h : ¬ (mkRequestHeaderProcess cfg sys sr).1 < 0) :
    ∃ uri, (mkRequestHeaderProcess cfg sys sr).2.uris = (uri, processedUri uri) ∧
      1 ≤ uri.len ∧ ((strchr (sr.body.data.getD []) 0x0a).isSome → 0 ∉ uri.text) := by
  unfold mkRequestHeaderProcess at h ⊢
  simp only at h ⊢
  generalize hbody : sr.body.data.getD [] = body at h ⊢
  generalize hlast : mkStringCharSearchR body 0x20 (indexOf sys body 0x0a) = last at h ⊢
  by_cases hend : last - 1 ≤ 0
  · exact absurd (by rw [if_pos hend]; exact (by decide : (-1 : Int) < 0)) h
  by_cases hinit : last - 1 < indexOf sys body 0x20 + 1
  · exact absurd (by rw [if_neg hend, if_pos hinit]; exact (by decide : (-1 : Int) < 0)) h
  rw [if_neg hend, if_neg hinit] at h ⊢
  obtain ⟨stop, hlt, hle, huri⟩ := mkRequestUriProcess_uri (last - 1 + 2) sr (not_lt.mp hinit)
  generalize mkRequestUriProcess body (indexOf sys body 0x20 + 1) (last - 1) (last - 1 + 2) sr = sr'
    at h huri ⊢
  by_cases hlen : sr'.uri.len < 1
  · exact absurd (by rw [if_pos hlen]; exact (by decide : (-1 : Int) < 0)) h
  by_cases hprot : last - 1 + 2 = indexOf sys body 0x0a - 1
  · exact absurd (by rw [if_neg hlen, if_pos hprot]; exact (by decide : (-1 : Int) < 0)) h
  rw [if_neg hlen, if_neg hprot]
  refine ⟨sr'.uri, ?_, not_lt.mp hlen, ?_⟩
  · rw [mkRequestFieldsProcess_keeps (f := SessionRequest.uris) (fun _ _ _ _ _ _ _ _ _ _ => rfl),
      mkRequestUriDecode_uris]
    split <;> rfl
  · intro hline
    obtain ⟨hlt', hblank⟩ := @lastBlank_lt sys body hline (by omega)
    obtain ⟨k, hk⟩ := Option.isSome_iff_exists.mp hblank
    have hindex : indexOf sys body 0x20 = k := by rw [indexOf, hk]; rfl
    rw [huri]
    exact mkPointerCreate_no_nul (by omega) hlt (by omega)

/-- The request handed to `mk_http_init`, and the plan that it leads to. -/
theorem httpInitRequest_spec (h : httpInitRequest ctx sr = some sr') :
    mkRequestPlan ctx sr = planInit ctx sr' ∧ sr'.uriProcessed.text = uriText sr'.uri ∧
      (uriText sr'.uri).head? = some 0x2f ∧
      ((strchr (sr.body.data.getD []) 0x0a).isSome → 0 ∉ uriText sr'.uri) := by
  unfold httpInitRequest at h
  unfold mkRequestPlan
  simp only at h ⊢
  split at h
  · contradiction
  · next hstatus =>
    rw [if_neg hstatus]
    obtain ⟨uri, huris, hlen, hnul⟩ := mkRequestHeaderProcess_uri hstatus
    obtain ⟨⟨hkept, hplan⟩, hhead⟩ := passProcess_spec h
    have hboth : sr'.uris = (uri, processedUri uri) := hkept.trans huris
    obtain ⟨rfl, hprocessed⟩ := Prod.mk.inj hboth
    have hhead' : ((processedUri sr'.uri).data.getD []).head? = some 0x2f := by
      rw [← (Prod.mk.inj huris).2]
      exact hhead
    refine ⟨hplan, by rw [hprocessed, processedUri_text], processedUri_head hlen hhead', ?_⟩
    intro hline
    unfold uriText
    cases mkUtilsUrlDecode sr'.uri with
    | none => exact hnul hline
    | some temp => exact zero_notMem_cstr temp

end

/-! ## confinement -/

/-- **Confinement**: whatever the URI and its encoding, `mk_http_init` looks only at
the document root followed by the processed URI, or at an index file there, or at
paths a plugin has put in their place; and it looks at nothing when the processed
URI goes backward.  The bytes composed are a C string as soon as the first line of
the request has an end. -/
theorem paths_below_root {ctx : Ctx} {request sr : SessionRequest}
    (hreq : httpInitRequest ctx request = some sr) (hhome : sr.userHome = false)
    (hroot : (0 : UInt8) ∉ sr.hostConf.documentroot)
    (hnames : ∀ entry ∈ ctx.cfg.indexFiles, (0 : UInt8) ∉ entry) :
    let uri := uriText sr.uri
    let root := sr.hostConf.documentroot ++ uri
    sr.uriProcessed.text = uri ∧ uri.head? = some 0x2f ∧
      ((strchr (request.body.data.getD []) 0x0a).isSome → cstr root = root) ∧
      (mkHttpInitAccesses ctx sr ≠ [] → ¬ httpDirectoryBackward <:+: uri) ∧
      ∀ a ∈ mkHttpInitAccesses ctx sr, Confined ctx (cstr root) a.path := by
  obtain ⟨-, htext, hhead, hnul⟩ := httpInitRequest_spec hreq
  have hcompose : composeRealPath sr =
      { sr with realPath := sr.hostConf.documentroot ++ uriText sr.uri } := by
    rw [composeRealPath, if_neg (by rw [hhome]; exact Bool.false_ne_true), htext]
  refine ⟨htext, hhead, ?_, ?_, ?_⟩
  · intro hline
    apply cstr_eq_self
    intro hmem
    rcases List.mem_append.mp hmem with hmem | hmem
    · exact hroot hmem
    · exact hnul hline hmem
  · rintro hany hback
    apply hany
    unfold mkHttpInitAccesses
    simp only
    rw [if_pos]
    rw [hcompose]
    obtain ⟨s, t, hst⟩ := hback
    have hpre : httpDirectoryBackward <+: (uriText sr.uri).drop s.length := by
      rw [← hst, List.append_assoc, List.drop_left]
      exact List.prefix_append _ _
    have hle : s.length ≤ (uriText sr.uri).length := by
      rw [← hst, List.append_assoc, List.length_append]
      omega
    obtain ⟨p, hp, _⟩ := findSub_of_prefix_drop hpre hle
    rw [show memmem _ _ httpDirectoryBackward = findSub _ sr.uriProcessed.text from rfl, htext, hp]
    rfl
  · intro a ha
    have hpath := mkHttpInitAccesses_path hnames ha
    rwa [hcompose] at hpath

/-- A directory asked for with an encoded letter, on a server with an index file. -/
def indexRequest : SessionRequest :=
  let text := ascii "GET /%61/ HTTP/1.1\r\nHost: a\r\n\r\n".toList
  { body := ⟨some text, text.length⟩, method := .get }

def indexCtx : Ctx :=
  { sampleCtx with
    cfg := { sampleConfig with indexFiles := [ascii "index.html".toList] }
    sys := { sampleSys with
      stat := fun path => .ok false 100 1 (path.getLast? == some 0x2f) true false } }

theorem paths_below_root_index : ∃ sr, httpInitRequest indexCtx indexRequest = some sr ∧
    mkHttpInitAccesses indexCtx sr =
      [.stat (ascii "/srv/a/".toList), .access (ascii "/srv/a/index.html".toList),
        .stat (ascii "/srv/a/index.html".toList), .openFile (ascii "/srv/a/index.html".toList)] ∧
    ∀ a ∈ mkHttpInitAccesses indexCtx sr,
      Confined indexCtx (cstr (sr.hostConf.documentroot ++ uriText sr.uri)) a.path := by
  have hsome : (httpInitRequest indexCtx indexRequest).isSome := by decide
  obtain ⟨sr, hsr⟩ := Option.isSome_iff_exists.mp hsome
  have hhome : (httpInitRequest indexCtx indexRequest).map (·.userHome) = some false := by decide
  have hroot : (httpInitRequest indexCtx indexRequest).map (·.hostConf.documentroot) =
      some (ascii "/srv".toList) := by decide
  have hcalls : (httpInitRequest indexCtx indexRequest).map (mkHttpInitAccesses indexCtx) =
      some [.stat (ascii "/srv/a/".toList), .access (ascii "/srv/a/index.html".toList),
        .stat (ascii "/srv/a/index.html".toList), .openFile (ascii "/srv/a/index.html".toList)] := by
    decide
  rw [hsr, Option.map_some] at hhome hroot hcalls
  refine ⟨sr, hsr, Option.some.inj hcalls, ?_⟩
  refine (paths_below_root hsr (Option.some.inj hhome) ?_ ?_).2.2.2.2
  · rw [Option.some.inj hroot]
    decide
  · decide

end Monkey
