import Monkey.Request.Serve

/-!
# Monkey.Request.Head

HEAD requests served by the core, without plugins: a HEAD is answered by a header and
nothing else, unless the answer is an error with a customized page (whose file is sent
whatever the method), the home directory of an unknown user (answered twice), or a
later write event processes the request again.
-/

namespace Monkey

/-! ## the plan of a HEAD -/

/-- No plugin is asked for the request. -/
def Sys.core (sys : Sys) : Prop := sys.stage20 = [] ∧ sys.stage30 = []

/-- The plan is the core's and has an answer `mk_header_send` knows. -/
def Plan.answers : Plan → Bool
  | .silent _ _ => false
  | .error status _ | .refuse _ status _ => statusKnown status
  | _ => true

/-- A plan the core makes for a HEAD. -/
structure Plan.Head (bytesToSend : Int) (plan : Plan) : Prop where
  method : plan.sr.method = .head
  bytes : plan.sr.bytesToSend = bytesToSend
  answers : plan.answers = true

section

variable {ctx : Ctx} {sr : SessionRequest} {n : Int}

theorem mkPluginStage30_core (h : ctx.sys.core) (sr : SessionRequest) :
    mkPluginStage30 ctx.sys sr = (.notMe, sr) := by
  simp [mkPluginStage30, h.2, stage30Loop]

theorem planSend_head (hm : sr.method = .head) (hn : sr.bytesToSend = n) :
    (planSend ctx sr).Head n := by
  unfold planSend
  repeat' split
  all_goals exact ⟨hm, hn, rfl⟩

theorem mkHttpRangeParse_head (sr : SessionRequest) : (mkHttpRangeParse sr).2.method = sr.method ∧
    (mkHttpRangeParse sr).2.bytesToSend = sr.bytesToSend := by
  rw [mkHttpRangeParse_eq]
  rcases rangeForm sr.range with _ | (_ | _ | _) <;> exact ⟨rfl, rfl⟩

theorem planRange_head (hm : sr.method = .head) (hn : sr.bytesToSend = n) :
    (planRange ctx sr).Head n := by
  obtain ⟨hmethod, hbytes⟩ := mkHttpRangeParse_head sr
  unfold planRange rangeStep
  split
  · exact ⟨hmethod.trans hm, hbytes.trans hn, rfl⟩
  · next sr' hsome =>
      apply planSend_head
      all_goals
        simp only at hsome
        repeat' split at hsome
        all_goals grind

theorem planOk_head (hm : sr.method = .head) (hn : sr.bytesToSend = n) : (planOk ctx sr).Head n := by
  unfold planOk
  simp only
  split
  · exact planRange_head hm hn
  · exact planSend_head hm hn

theorem planServe_head (hm : sr.method = .head) (hn : sr.bytesToSend = n) :
    (planServe ctx sr).Head n := by
  unfold planServe
  simp only
  repeat' split
  all_goals first | exact ⟨hm, hn, rfl⟩ | exact planOk_head hm hn

theorem planLink_head (hcore : ctx.sys.core) (hm : sr.method = .head) (hn : sr.bytesToSend = n) :
    (planLink ctx sr).Head n := by
  unfold planLink planStage30
  simp only [mkPluginStage30_core hcore]
  repeat' split
  all_goals first | exact ⟨hm, hn, rfl⟩ | exact planServe_head hm hn

theorem planFound_head (hcore : ctx.sys.core) (hm : sr.method = .head) (hn : sr.bytesToSend = n) :
    (planFound ctx sr).Head n := by
  unfold planFound
  repeat' split
  all_goals first | exact ⟨hm, hn, rfl⟩ | exact planLink_head hcore hm hn

theorem planInit_head (hcore : ctx.sys.core) (hm : sr.method = .head) (hn : sr.bytesToSend = n) :
    (planInit ctx sr).Head n := by
  have hm' : (composeRealPath sr).method = .head := by
    rw [← hm]
    unfold composeRealPath
    split <;> rfl
  have hn' : (composeRealPath sr).bytesToSend = n := by
    rw [← hn]
    unfold composeRealPath
    split <;> rfl
  unfold planInit
  simp only [mkPluginStage30_core hcore]
  repeat' split
  all_goals first | exact ⟨hm', hn', rfl⟩ | exact planFound_head hcore hm' hn'

theorem planHttp_head (hcore : ctx.sys.core) (hm : sr.method = .head) (hn : sr.bytesToSend = n) :
    (planHttp ctx sr).Head n := by
  have hclose : mkPluginStage20 ctx.sys sr = false := by simp [mkPluginStage20, hcore.1]
  rw [planHttp, hclose]
  exact planInit_head hcore hm hn

theorem planHome_head (hcore : ctx.sys.core) (hm : sr.method = .head) (hn : sr.bytesToSend = n) :
    (planHome ctx sr).Head n := by
  have hmethod : ∀ sr' : SessionRequest, sr'.method = .head → sr'.bytesToSend = n →
      (planMethod ctx sr').Head n := by
    intro sr' hm' hn'
    rw [planMethod, if_neg (by simp [hm'])]
    exact planHttp_head hcore hm' hn'
  unfold planHome
  split
  · split
    · exact ⟨hm, hn, rfl⟩
    · next hret =>
        rcases mkUserInit_cases ctx sr with ⟨path, huser, _⟩ | ⟨huser, _⟩ | ⟨huser, _⟩
        · rw [huser]
          exact hmethod _ hm hn
        all_goals
          rw [huser] at hret
          exact absurd (by decide : (-1 : Int) ≠ 0) hret
  · exact hmethod sr hm hn

end

/-- The core's plan for a HEAD. -/
theorem mkRequestPlan_head {ctx : Ctx} {sr : SessionRequest} (hcore : ctx.sys.core)
    (hm : sr.method = .head) : (mkRequestPlan ctx sr).Head sr.bytesToSend := by
  have hkept := mkRequestHeaderProcess_outside ctx.cfg ctx.sys
    { sr with hostConf := ctx.cfg.defaultHost }
  unfold mkRequestPlan
  generalize mkRequestHeaderProcess ctx.cfg ctx.sys { sr with hostConf := ctx.cfg.defaultHost } = parsed
    at hkept
  obtain ⟨status, sr'⟩ := parsed
  have hm' : sr'.method = .head := (congrArg (·.2.1) hkept).trans hm
  have hn' : sr'.bytesToSend = sr.bytesToSend := congrArg (·.2.2) hkept
  simp only
  split
  · exact ⟨hm', hn', rfl⟩
  unfold planProcess
  repeat' split
  all_goals first | exact ⟨hm', hn', rfl⟩ | exact planHome_head hcore hm' hn'

/-! ## its answer -/

/-- No customized page is sent, and no user looked up in vain. -/
def Plan.bare (ctx : Ctx) : Plan → Bool
  | .error status sr | .refuse _ status sr => (errorPageFile ctx.sys status sr).isNone
  | .noHome sr => !unknownUser ctx.sys sr && (errorPageFile ctx.sys mkClientNotFound sr).isNone
  | _ => true

/-- An answer of one header that leaves a HEAD as it is. -/
def HeaderOnly (n : Int) (r : Res) : Prop :=
  (∃ h, r.out = [.header h]) ∧ r.sr.method = .head ∧ r.sr.bytesToSend = n

theorem mkHeaderSend_headerOnly {ctx : Ctx} {sr : SessionRequest} {n : Int}
    (hknown : statusKnown sr.headers.status = true) (hm : sr.method = .head)
    (hn : sr.bytesToSend = n) : HeaderOnly n (mkHeaderSend ctx sr) := by
  obtain ⟨h, hout, -⟩ := @mkHeaderSend_known ctx sr hknown
  exact ⟨⟨h, hout⟩, hm, hn⟩

theorem mkRequestError_headerOnly {ctx : Ctx} {status : Int} {sr : SessionRequest} {n : Int}
    (hknown : statusKnown status = true) (hpage : (errorPageFile ctx.sys status sr).isNone = true)
    (hm : sr.method = .head) (hn : sr.bytesToSend = n) :
    HeaderOnly n (mkRequestError ctx status sr) := by
  unfold mkRequestError
  simp only
  rw [show errorPageFile ctx.sys status
    { sr with headers := { sr.headers with status := status } } = none from
      Option.isNone_iff_eq_none.mp hpage]
  generalize defaultPage status _ = page
  simp only
  obtain ⟨h, hout, -⟩ := @mkHeaderSend_known ctx { sr with
    headers := { sr.headers with
      status := status
      contentLength := page.elim sr.headers.contentLength fun p => (p.length : Int)
      location := none, lastModified := -1
      contentType := page.elim [] fun _ => ascii "text/html\r\n".toList } } hknown
  refine ⟨⟨h, ?_⟩, hm, hn⟩
  rw [hout]
  cases page with
  | none => rfl
  | some p =>
      simp only
      rw [if_pos hm]
      rfl

/-- A bare plan of the core answers a HEAD with one header. -/
theorem Plan.run_head {ctx : Ctx} {f : Flags} {plan : Plan} {n : Int} (hfor : plan.For ctx f)
    (hhead : plan.Head n) (hbare : plan.bare ctx = true) : HeaderOnly n (plan.run ctx) := by
  obtain ⟨hm, hn, hanswers⟩ := hhead
  cases plan with
  | silent ret sr => contradiction
  | error status sr => exact mkRequestError_headerOnly hanswers hbare hm hn
  | refuse ret status sr => exact mkRequestError_headerOnly hanswers hbare hm hn
  | noHome sr =>
      obtain ⟨hknown, hpage⟩ := Bool.and_eq_true_iff.mp hbare
      have huser : (mkUserInit ctx sr).out = [] ∧ (∃ path home,
          (mkUserInit ctx sr).sr = { sr with realPath := path, userHome := home }) := by
        rcases mkUserInit_cases ctx sr with ⟨path, huser, _⟩ | ⟨huser, _⟩ | ⟨_, hunknown⟩
        · rw [huser]
          exact ⟨rfl, path, true, rfl⟩
        · rw [huser]
          exact ⟨rfl, sr.realPath, sr.userHome, rfl⟩
        · simp [hunknown] at hknown
      obtain ⟨hout, path, home, hsr⟩ := huser
      rw [Plan.run, hout, hsr]
      exact mkRequestError_headerOnly rfl hpage hm hn
  | noData sr =>
      rcases mkMethodParseData_cases ctx sr with ⟨_, _, _, hdata⟩ | ⟨status, toc, hplain, hdata⟩
      · exact absurd (by rw [hdata]) (hfor.data sr rfl)
      · rw [Plan.run, hdata]
        refine mkRequestError_headerOnly (statusKnown_of_plainStatus hplain) ?_ hm hn
        rw [errorPageFile, if_pos hplain]
        rfl
  | redirect sr =>
      obtain ⟨r, hr⟩ := Option.isSome_iff_exists.mp (hfor.location sr rfl)
      obtain ⟨sr', hstatus, hflags, -, hmethod, rfl⟩ := mkHttpDirectoryRedirectCheck_some hr
      rw [Plan.run, hr, Option.getD_some]
      exact @mkHeaderSend_headerOnly ctx sr' n (by rw [hstatus]; rfl) (hmethod.trans hm)
        ((congrArg Flags.bytesToSend hflags).trans hn)
  | notModified sr => exact mkHeaderSend_headerOnly rfl hm hn
  | send sr =>
      have hknown : statusKnown sr.headers.status = true := by
        rcases hfor.status sr rfl with hs | hs <;> rw [hs] <;> rfl
      have hsend := @mkHeaderSend_headerOnly ctx sr n hknown hm hn
      rw [Plan.run, mkHttpInitTail]
      have hmethod : ¬ ((mkHeaderSend ctx sr).sr.method = .get ∨
          (mkHeaderSend ctx sr).sr.method = .post) := by
        simp [hsend.2.1]
      simp only [if_neg hmethod]
      split <;> exact hsend

/-! ## the write events of a batch -/

/-- What has been done for the request at a position, STAGE_40 apart. -/
def answerOf (node : Nat) (out : List (Nat × Out)) : List Out :=
  (out.filter fun o => o.1 == node && o.2 != .stage40).map (·.2)

theorem answerOf_append (node : Nat) (out out' : List (Nat × Out)) :
    answerOf node (out ++ out') = answerOf node out ++ answerOf node out' := by
  simp [answerOf]

theorem answerOf_map (m node : Nat) (out : List Out) :
    answerOf m (out.map (node, ·)) = if m = node then out.filter (· != .stage40) else [] := by
  induction out with
  | nil => simp [answerOf]
  | cons o out ih =>
      unfold answerOf at ih ⊢
      by_cases hm : m = node
      · subst hm
        by_cases ho : o = .stage40 <;> simp_all
      · simp_all [Ne.symm hm]

/-- A walk writes for the nodes from its first on. -/
theorem le_of_mem_mkHandlerWriteLoop {cfg : Config} {sys : Sys} {cs : ClientSession} {node : Nat}
    {finalStatus : Int} {list : List SessionRequest} :
    ∀ o ∈ (mkHandlerWriteLoop cfg sys cs node finalStatus list).out, node ≤ o.1 := by
  induction list generalizing node finalStatus with
  | nil => simp [mkHandlerWriteLoop]
  | cons sr rest ih =>
      have hmap : ∀ out : List Out, ∀ o ∈ out.map (node, ·), node ≤ o.1 := by simp
      intro o ho
      rw [mkHandlerWriteLoop_cons] at ho
      generalize mkHandlerWriteNode ⟨cfg, sys, cs, rest, node⟩ finalStatus sr = r at ho
      split at ho
      · rcases List.mem_append.mp ho with ho | ho
        · exact hmap _ o ho
        · contradiction
      split at ho
      · rcases List.mem_append.mp ho with ho | ho
        · exact hmap _ o ho
        · exact Nat.le_of_succ_le (ih o ho)
      · rcases List.mem_append.mp ho with ho | ho
        · exact hmap _ o ho
        · contradiction

theorem answerOf_mkHandlerWriteLoop_lt {cfg : Config} {sys : Sys} {cs : ClientSession}
    {m node : Nat} {finalStatus : Int} {list : List SessionRequest} (hm : m < node) :
    answerOf m (mkHandlerWriteLoop cfg sys cs node finalStatus list).out = [] := by
  rw [answerOf, List.map_eq_nil_iff, List.filter_eq_nil_iff]
  intro o ho
  have := le_of_mem_mkHandlerWriteLoop o ho
  simp
  omega

/-- A HEAD that waits, or has been answered with one header. -/
def HeadState (sr : SessionRequest) (answer : List Out) : Prop :=
  sr.method = .head ∧ sr.bytesToSend < 0 ∧ (answer = [] ∨ ∃ h, answer = [.process, .header h])

/-- The HEADs of a list, at the positions where one was received. -/
def HeadsOk (heads : Nat → Prop) (answer : Nat → List Out) (node : Nat)
    (list : List SessionRequest) : Prop :=
  ∀ i sr, list[i]? = some sr → heads (node + i) → HeadState sr (answer (node + i))

/-- A HEAD is processed with a bare plan, and when it has not been answered. -/
def HeadBare (answer : Nat → List Out) (ctx : Ctx) (sr : SessionRequest) : Prop :=
  sr.method = .head → sr.handledBy = false → sr.bytesToSend < 0 →
    (mkRequestPlan ctx sr).bare ctx = true ∧ answer ctx.node = []

/-- One node of a walk. -/
theorem HeadState.node {ctx : Ctx} {finalStatus : Int} {sr : SessionRequest} {answer : Nat → List Out}
    (h : HeadState sr (answer ctx.node)) (hcore : ctx.sys.core) (hbare : HeadBare answer ctx sr) :
    HeadState (mkHandlerWriteNode ctx finalStatus sr).sr
      (answer ctx.node ++ (mkHandlerWriteNode ctx finalStatus sr).out.filter (· != .stage40)) := by
  obtain ⟨hm, hneg, hanswer⟩ := h
  unfold mkHandlerWriteNode
  rw [if_neg fun hsend => absurd hsend.2 (by omega)]
  by_cases hhandled : sr.handledBy = false
  · rw [if_pos ⟨hhandled, hneg⟩, mkRequestProcess_eq]
    obtain ⟨hplan, hnone⟩ := hbare hm hhandled hneg
    obtain ⟨⟨hb, hout⟩, hm', hn'⟩ :=
      Plan.run_head (mkRequestPlan_for ctx sr) (mkRequestPlan_head hcore hm) hplan
    refine ⟨hm', by rw [Res.after, hn']; exact hneg, .inr ⟨hb, ?_⟩⟩
    rw [hnone, Res.after, hout]
    rfl
  · rw [if_neg fun hnew => hhandled hnew.1]
    exact ⟨hm, hneg, by simpa using hanswer⟩

theorem HeadsOk.head {heads : Nat → Prop} {answer : Nat → List Out} {node : Nat}
    {sr : SessionRequest} {rest : List SessionRequest} (h : HeadsOk heads answer node (sr :: rest)) :
    heads node → HeadState sr (answer node) := h 0 sr rfl

theorem HeadsOk.tail {heads : Nat → Prop} {answer : Nat → List Out} {node : Nat}
    {sr : SessionRequest} {rest : List SessionRequest} (h : HeadsOk heads answer node (sr :: rest)) :
    HeadsOk heads answer (node + 1) rest := by
  intro i sr' hi
  rw [Nat.add_assoc, Nat.add_comm 1 i]
  exact h (i + 1) sr' hi

/-- A node and the rest of the list, each with its own answers. -/
theorem HeadsOk.cons {heads : Nat → Prop} {answer answer' : Nat → List Out} {node : Nat}
    {sr : SessionRequest} {rest : List SessionRequest}
    (hhead : heads node → HeadState sr (answer node)) (htail : HeadsOk heads answer' (node + 1) rest)
    (hsame : ∀ m, node < m → answer m = answer' m) : HeadsOk heads answer node (sr :: rest) := by
  intro i sr' hi hheads
  cases i with
  | zero =>
      obtain rfl := Option.some.inj hi
      exact hhead hheads
  | succ i =>
      rw [hsame _ (by omega)]
      have hpos : node + (i + 1) = node + 1 + i := by omega
      rw [hpos] at hheads ⊢
      exact htail i sr' hi hheads

/-- One walk. -/
theorem HeadsOk.walk {cfg : Config} {sys : Sys} {cs : ClientSession} {heads : Nat → Prop}
    {answer : Nat → List Out} {node : Nat} {finalStatus : Int} {list : List SessionRequest}
    (h : HeadsOk heads answer node list) (hcore : sys.core)
    (hbare : Visits (HeadBare answer) cfg sys cs node finalStatus list) :
    HeadsOk heads
      (fun m => answer m ++ answerOf m (mkHandlerWriteLoop cfg sys cs node finalStatus list).out)
      node (mkHandlerWriteLoop cfg sys cs node finalStatus list).list := by
  induction list generalizing node finalStatus with
  | nil => simp [HeadsOk, mkHandlerWriteLoop]
  | cons sr rest ih =>
      obtain ⟨hfirst, hlater⟩ := hbare
      have hnode := fun hheads =>
        @HeadState.node ⟨cfg, sys, cs, rest, node⟩ finalStatus sr answer (h.head hheads) hcore hfirst
      rw [mkHandlerWriteLoop_cons]
      generalize mkHandlerWriteNode ⟨cfg, sys, cs, rest, node⟩ finalStatus sr = r at hnode hlater
      have hstage : (r.out ++ [Out.stage40]).filter (· != .stage40) = r.out.filter (· != .stage40) := by
        simp
      split
      · refine HeadsOk.cons (fun hheads => ?_) h.tail fun m hm => ?_
        · simp only [Walk.cons, answerOf_map, if_true, List.append_nil]
          exact hnode hheads
        · simp only [Walk.cons, answerOf_map, if_neg (Nat.ne_of_gt hm), List.append_nil]
      · split
        · next hgo =>
            have hbefore := @answerOf_mkHandlerWriteLoop_lt cfg sys cs node (node + 1) r.ret rest
              (Nat.lt_succ_self node)
            refine HeadsOk.cons (fun hheads => ?_) (ih h.tail (hlater hgo)) fun m hm => ?_
            · simp only [Walk.cons, answerOf_append, answerOf_map, if_true, hstage, hbefore,
                List.append_nil]
              exact hnode hheads
            · simp only [Walk.cons, answerOf_append, answerOf_map, if_neg (Nat.ne_of_gt hm),
                List.nil_append]
        · refine HeadsOk.cons (fun hheads => ?_) h.tail fun m hm => ?_
          · simp only [Walk.cons, answerOf_map, if_true, hstage, List.append_nil]
            exact hnode hheads
          · simp only [Walk.cons, answerOf_map, if_neg (Nat.ne_of_gt hm), List.append_nil]

instance (answer : Nat → List Out) (ctx : Ctx) (sr : SessionRequest) :
    Decidable (HeadBare answer ctx sr) := inferInstanceAs (Decidable (_ → _ → _ → _ ∧ _))

/-- Every HEAD a write event comes to is bare. -/
def HeadsBare (cfg : Config) (cs : ClientSession) (b : Batch) (sys : Sys) : Prop :=
  Visits (HeadBare fun node => answerOf node b.out) cfg sys cs 0 0 b.list

instance (cfg : Config) (cs : ClientSession) (b : Batch) (sys : Sys) :
    Decidable (HeadsBare cfg cs b sys) := Visits.decidable cfg sys cs 0 0 b.list

/-- The HEADs of a batch between two write events. -/
structure HeadsServed (list : List SessionRequest) (b : Batch) : Prop where
  heads : HeadsOk (fun m => ∃ sr ∈ list[m]?, sr.method = .head) (fun m => answerOf m b.out) 0 b.list
  length : b.list.length = list.length

/-- In every run of write events without plugins in which the HEADs are bare, each HEAD
either waits or has been processed once and answered with one header and nothing
else. -/
theorem head_header_only {cfg : Config} {cs : ClientSession} {list : List SessionRequest}
    {syss : List Sys} {t : Batch} (hfresh : ∀ sr ∈ list, Fresh sr)
    (hcore : ∀ sys ∈ syss, sys.core)
    (h : Run (Guarded (HeadsBare cfg cs) (Batch.Step cfg cs)) (Batch.init list) syss t)
    {node : Nat} {sr : SessionRequest} (hsr : list[node]? = some sr) (hm : sr.method = .head) :
    answerOf node t.out = [] ∨ ∃ hb, answerOf node t.out = [.process, .header hb] := by
  have hinit : HeadsServed list (Batch.init list) := by
    refine ⟨?_, rfl⟩
    rintro i sr' hi ⟨sr'', hsr'', hm''⟩
    rw [Nat.zero_add] at hsr''
    obtain rfl : sr'' = sr' := Option.some.inj (hsr''.symm.trans hi)
    exact ⟨hm'', (hfresh sr'' (List.mem_of_getElem? hi)).bytesToSend_neg, .inl rfl⟩
  have hstep : ∀ b sys b', HeadsServed list b → sys.core →
      Guarded (HeadsBare cfg cs) (Batch.Step cfg cs) b sys b' → HeadsServed list b' := by
    rintro b sys b' hb hs ⟨hbare, hwrite⟩
    obtain ⟨-, rfl⟩ := hwrite.eq
    refine ⟨?_, (mkHandlerWriteLoop_length cfg sys cs 0 0 b.list).trans hb.length⟩
    simpa only [answerOf_append, mkHandlerWriteList] using hb.heads.walk hs hbare
  have hend := (h.guarded_of_forall hcore).guarded_invariant hstep hinit
  obtain ⟨hlt, -⟩ := List.getElem?_eq_some_iff.mp hsr
  have hstate := hend.heads node _ (List.getElem?_eq_getElem (hend.length.symm ▸ hlt))
    ⟨sr, by rwa [Nat.zero_add], hm⟩
  rw [Nat.zero_add] at hstate
  exact hstate.2.2

/-- A HEAD for a file that exists. -/
theorem head_header_only_headRequest :
    let cs := parsedSession 0 headRequest
    ∃ t sr, Run (Guarded (HeadsBare sampleConfig cs) (Batch.Step sampleConfig cs))
        (Batch.init cs.requestList) [sampleSys] t ∧
      cs.requestList[0]? = some sr ∧ sr.method = .head ∧
      (answerOf 0 t.out = [] ∨ ∃ hb, answerOf 0 t.out = [.process, .header hb]) := by
  intro cs
  have hmethod : (cs.requestList[0]?).map (·.method) = some .head := by decide +kernel
  obtain ⟨sr, hsr, hm⟩ := Option.map_eq_some_iff.mp hmethod
  have hend : (([sampleSys].foldlM (fun b sys =>
      if HeadsBare sampleConfig cs b sys then b.write sampleConfig cs sys else none)
      (Batch.init cs.requestList)).map (·.ret)) = some 0 := by decide +kernel
  obtain ⟨t, ht, -⟩ := Option.map_eq_some_iff.mp hend
  have hrun := Run.guarded_of_foldlM ht
  have hcore : ∀ sys ∈ [sampleSys], sys.core := by
    rintro sys (_ | ⟨_, ⟨⟩⟩)
    exact ⟨rfl, rfl⟩
  exact ⟨t, sr, hrun, hsr, hm, head_header_only (parsedSession_fresh 0 _) hcore hrun hsr hm⟩

/-- A host with a page for missing files, and a server on which only that page exists. -/
def pageConfig : Config := { sampleConfig with
  defaultHost := {
    documentroot := ascii "/srv".toList
    errorPages := [⟨mkClientNotFound, ascii "/err".toList⟩] } }

def pageSys : Sys := { sampleSys with
  stat := fun path => if path = ascii "/err".toList then .ok false 100 1 false true false else .fail false }

/-- A HEAD for a file that is missing: the customized page is sent with the header. -/
theorem head_error_page_sent :
    ¬ ∀ (cfg : Config) (cs : ClientSession) (list : List SessionRequest) (syss : List Sys)
      (t : Batch), (∀ sr ∈ list, Fresh sr) → (∀ sys ∈ syss, sys.core) →
      Run (Batch.Step cfg cs) (Batch.init list) syss t → ∀ (node : Nat) (sr : SessionRequest),
      list[node]? = some sr → sr.method = .head →
      answerOf node t.out = [] ∨ ∃ hb, answerOf node t.out = [.process, .header hb] := by
  intro hall
  have hmethod : ((parsedSession 0 headRequest).requestList[0]?).map (·.method) = some .head := by
    decide +kernel
  obtain ⟨sr, hsr, hm⟩ := Option.map_eq_some_iff.mp hmethod
  have hend : (([pageSys].foldlM (Batch.write pageConfig (parsedSession 0 headRequest))
      (Batch.init (parsedSession 0 headRequest).requestList)).map
      fun t => (answerOf 0 t.out).drop 2) = some [.file 0 100] := by decide +kernel
  obtain ⟨t, ht, hout⟩ := Option.map_eq_some_iff.mp hend
  have hcore : ∀ sys ∈ [pageSys], sys.core := by
    rintro sys (_ | ⟨_, ⟨⟩⟩)
    exact ⟨rfl, rfl⟩
  rcases hall pageConfig (parsedSession 0 headRequest) _ [pageSys] t (parsedSession_fresh 0 _) hcore
    (Run.of_foldlM ht) 0 sr hsr hm with hnone | ⟨hb, hone⟩
  · rw [hnone] at hout
    contradiction
  · rw [hone] at hout
    contradiction

end Monkey
