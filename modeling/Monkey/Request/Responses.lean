import Monkey.Http.Framing
import Monkey.Request.Serve

/-!
# Monkey.Request.Responses

What a client reads from a connection on which it has sent a batch of requests: the bytes of the
served batch, cut into responses by their own headers.

The bytes are those that the walks over the list have written, in their order: a header as
`mkHeaderSendText` makes it of its block, with what the thread, the host and the plugins add
(`Wire`), a page as it is, and a part of a file out of the file.  The client knows nothing of
the server.  It reads header after header, and takes as many bytes for a body as each says
(`Monkey.Lib.Responses`).
-/

namespace Monkey

/-! ## the socket and the rest of the world -/

/-- The same world but for what the sockets take. -/
def Sys.sending (sys : Sys) (sendFile : Nat → Nat → Int → Int) : Sys := { sys with sendFile := sendFile }

def Ctx.sending (ctx : Ctx) (sendFile : Nat → Nat → Int → Int) : Ctx := { ctx with sys := ctx.sys.sending sendFile }

section

variable {ctx : Ctx} {sr : SessionRequest} {f : Nat → Nat → Int → Int}

theorem planOk_sending : planOk (ctx.sending f) sr = planOk ctx sr := rfl

theorem planServe_sending : planServe (ctx.sending f) sr = planServe ctx sr := by
  unfold planServe
  simp only [planOk_sending]
  rfl

theorem planStage30_sending : planStage30 (ctx.sending f) sr = planStage30 ctx sr := by
  unfold planStage30
  simp only [planServe_sending]
  rfl

theorem planLink_sending : planLink (ctx.sending f) sr = planLink ctx sr := by
  unfold planLink
  rw [planStage30_sending]
  rfl

theorem planFound_sending : planFound (ctx.sending f) sr = planFound ctx sr := by
  unfold planFound
  simp only [planLink_sending]
  rfl

theorem planInit_sending : planInit (ctx.sending f) sr = planInit ctx sr := by
  unfold planInit
  simp only [planFound_sending]
  rfl

/-- Whether posted data is accepted does not depend on the socket that an error is sent to. -/
theorem mkMethodParseData_sending : (mkMethodParseData (ctx.sending f) sr).ret = (mkMethodParseData ctx sr).ret ∧
    ((mkMethodParseData ctx sr).ret = 0 → (mkMethodParseData (ctx.sending f) sr).sr = (mkMethodParseData ctx sr).sr) := by
  have hcs : (ctx.sending f).cs = ctx.cs := rfl
  unfold mkMethodParseData
  simp only [hcs]
  split_ifs
  all_goals exact ⟨rfl, fun _ => rfl⟩

theorem planMethod_sending : planMethod (ctx.sending f) sr = planMethod ctx sr := by
  have hhttp : ∀ sr, planHttp (ctx.sending f) sr = planHttp ctx sr := by
    intro sr
    unfold planHttp
    rw [planInit_sending]
    rfl
  obtain ⟨hret, hsr⟩ := @mkMethodParseData_sending ctx sr f
  unfold planMethod
  rw [hret, hhttp, hhttp]
  split
  · split
    · rfl
    · next hzero => rw [hsr (not_not.mp hzero)]
  · rfl

/-- Whether there is a home directory does not depend on it either. -/
theorem mkUserInit_sending : (mkUserInit (ctx.sending f) sr).ret = (mkUserInit ctx sr).ret ∧
    ((mkUserInit ctx sr).ret = 0 → (mkUserInit (ctx.sending f) sr).sr = (mkUserInit ctx sr).sr) := by
  have hpwnam : (ctx.sending f).sys.getpwnam = ctx.sys.getpwnam := rfl
  have hcfg : (ctx.sending f).cfg = ctx.cfg := rfl
  unfold mkUserInit
  simp only [hpwnam, hcfg]
  by_cases hlen : (sr.uriProcessed.len : Int) ≤ 2
  · rw [if_pos hlen, if_pos hlen]
    exact ⟨rfl, fun _ => rfl⟩
  · rw [if_neg hlen, if_neg hlen]
    generalize (if mkStringCharSearch _ _ _ = -1 then _ else _ : Int) = limit
    by_cases hlimit : limit + 2 ≥ 255
    · rw [if_pos hlimit, if_pos hlimit]
      exact ⟨rfl, fun _ => rfl⟩
    · rw [if_neg hlimit, if_neg hlimit]
      cases ctx.sys.getpwnam (cstr ((List.drop 2 (sr.uriProcessed.data.getD [])).take limit.toNat)) with
      | none => exact ⟨rfl, fun h => absurd h (show (-1 : Int) ≠ 0 by decide)⟩
      | some pwDir => exact ⟨rfl, fun _ => rfl⟩

theorem planHome_sending : planHome (ctx.sending f) sr = planHome ctx sr := by
  obtain ⟨hret, hsr⟩ := @mkUserInit_sending ctx sr f
  unfold planHome
  rw [hret, planMethod_sending, planMethod_sending, show (ctx.sending f).cfg = ctx.cfg from rfl]
  split
  · split
    · rfl
    · next hzero => rw [hsr (not_not.mp hzero)]
  · rfl

/-- **The plan of a request** does not depend on what the socket will take. -/
theorem mkRequestPlan_sending : mkRequestPlan (ctx.sending f) sr = mkRequestPlan ctx sr := by
  have hprocess : ∀ sr, planProcess (ctx.sending f) sr = planProcess ctx sr := by
    intro sr
    unfold planProcess
    simp only [planHome_sending]
    rfl
  unfold mkRequestPlan
  simp only [hprocess]
  rfl

variable {plan : Plan}

theorem Plan.headers_sending : plan.headers (ctx.sending f) = plan.headers ctx := by cases plan <;> rfl

theorem Plan.answerStatus_sending : plan.answerStatus (ctx.sending f) = plan.answerStatus ctx := by cases plan <;> rfl

theorem Plan.announced_sending : plan.announced (ctx.sending f) = plan.announced ctx := by cases plan <;> rfl

theorem Plan.body_sending (file : Bytes) : plan.body (ctx.sending f) file = plan.body ctx file := by cases plan <;> rfl

end

/-! ## whole answers -/

/-- What is written for a request: what processing it writes, and then parts of its file. -/
def Begun (ctx : Ctx) (sr : SessionRequest) (out : List Out) : Prop :=
  (mkRequestProcess ctx sr).ret ≠ exitAbort ∧ (mkRequestPlan ctx sr).headers ctx = 1 ∧
    ∃ more, (∀ o ∈ more, o.isFile = true) ∧ out = .process :: ((mkRequestProcess ctx sr).out ++ more)

/-- A whole answer, by what began it. -/
def Completed (ctx : Ctx) (sr : SessionRequest) (answer : List Out) : Prop :=
  ∃ out h body, Begun ctx sr out ∧ Body ctx (mkRequestPlan ctx sr) body ∧ out = .process :: .header h :: body ∧
    answer = out ++ [.stage40]

/-- Every request from `node` on has a whole answer, in list order. -/
def CompletedFrom (cfg : Config) (cs : ClientSession) (events : List Sys) :
    Nat → List SessionRequest → List (Nat × Out) → Prop
  | _, [], out => out = []
  | node, sr :: rest, out =>
      ∃ answer later, out = answer.map (node, ·) ++ later ∧
        (∃ sys ∈ events, Completed ⟨cfg, sys, cs, rest, node⟩ sr answer) ∧
        CompletedFrom cfg cs events (node + 1) rest later

theorem Begun.more {ctx : Ctx} {sr : SessionRequest} {out files : List Out} (h : Begun ctx sr out)
    (hfiles : ∀ o ∈ files, o.isFile = true) : Begun ctx sr (out ++ files) := by
  obtain ⟨hret, hone, more, hmore, rfl⟩ := h
  refine ⟨hret, hone, more ++ files, fun o ho => (List.mem_append.mp ho).elim (hmore o) (hfiles o), ?_⟩
  rw [List.cons_append, List.append_assoc]

section

variable {cfg : Config} {cs : ClientSession} {events : List Sys}

/-- A fresh request that has been processed. -/
theorem Begun.of_process {ctx : Ctx} {sr : SessionRequest} (hsr : Fresh sr) (hserves : ServesNode ctx sr)
    (hret : (mkRequestProcess ctx sr).ret ≠ exitAbort) :
    Begun ctx sr ((mkRequestProcess ctx sr).after [.process]).out :=
  ⟨hret, ((hserves hsr.handledBy_eq).1 hsr.bytesToSend_neg).1, [], by simp, by simp [Res.after]⟩

/-- A walk over fresh requests that returns `0` has answered each of them. -/
theorem CompletedFrom.of_walk {sys : Sys} (hsys : sys ∈ events) (hsched : Scheduled sys) {node : Nat}
    {finalStatus : Int} {list : List SessionRequest} (hfresh : ∀ sr ∈ list, Fresh sr)
    (h : Visits ServesNode cfg sys cs node finalStatus list)
    (hret : (mkHandlerWriteLoop cfg sys cs node finalStatus list).ret = 0) :
    CompletedFrom cfg cs events node list (mkHandlerWriteLoop cfg sys cs node finalStatus list).out := by
  induction list generalizing node finalStatus with
  | nil => rfl
  | cons sr rest ih =>
      obtain ⟨hserves, htail⟩ := h
      have hsr := hfresh sr List.mem_cons_self
      have hprogress := hserves.progress hsched hsr.handledBy_eq hsr.bytesToSend_neg
      rw [mkHandlerWriteLoop_cons] at hret ⊢
      rw [hsr.mkHandlerWriteNode] at htail hret ⊢
      split_ifs at hret ⊢ with hpos hgo
      · exact absurd hret hpos.ne'
      · have hlater := ih (fun sr hmem => hfresh sr (List.mem_cons_of_mem _ hmem)) (htail hgo) hret
        cases hprogress with
        | done hdone hbody hout =>
            exact ⟨_, _, rfl, ⟨sys, hsys, _, _, _, .of_process hsr hserves hgo.2.2, hbody, hout, rfl⟩, hlater⟩
        | more hmore _ => exact absurd hmore hgo.1
        | aborted habort => exact absurd habort hgo.2.2
      · exact absurd hret (show (-1 : Int) ≠ 0 by decide)

/-- Between two write events, what has been written is the beginning of the first answer. -/
structure Completing (cfg : Config) (cs : ClientSession) (events : List Sys) (list : List SessionRequest)
    (b : Batch) : Prop where
  begun : 0 < b.ret → (b.list = list ∧ b.out = []) ∨ ∃ sys ∈ events, ∃ sr rest out, list = sr :: rest ∧ b.out = out.map (0, ·) ∧
    Begun ⟨cfg, sys, cs, rest, 0⟩ sr out ∧
      ∃ sr', b.list = sr' :: rest ∧ Started ⟨cfg, sys, cs, rest, 0⟩ (mkRequestPlan ⟨cfg, sys, cs, rest, 0⟩ sr) sr' out
  completed : b.ret = 0 → CompletedFrom cfg cs events 0 list b.out

/-- What a walk adds to a batch whose first request has been processed under `sys₀`. -/
theorem Completing.of_progress {sys sys₀ : Sys} {sr sr' : SessionRequest} {rest : List SessionRequest}
    (out : List Out) (hsys₀ : sys₀ ∈ events) (hsys : sys ∈ events) (hsched : Scheduled sys)
    (hfresh : ∀ sr ∈ rest, Fresh sr)
    (hprogress : let r := mkHandlerWriteNode ⟨cfg, sys, cs, rest, 0⟩ 0 sr'
      Progress ⟨cfg, sys₀, cs, rest, 0⟩ (mkRequestPlan ⟨cfg, sys₀, cs, rest, 0⟩ sr) (out ++ r.out) r)
    (hbegun : let r := mkHandlerWriteNode ⟨cfg, sys, cs, rest, 0⟩ 0 sr'
      r.ret ≠ exitAbort → Begun ⟨cfg, sys₀, cs, rest, 0⟩ sr (out ++ r.out))
    (hserves : Visits ServesNode cfg sys cs 0 0 (sr' :: rest)) :
    let walk := mkHandlerWriteList cfg sys cs (sr' :: rest)
    Completing cfg cs events (sr :: rest) ⟨walk.ret, walk.list, out.map (0, ·) ++ walk.out⟩ := by
  obtain ⟨-, htail⟩ := hserves
  simp only [mkHandlerWriteList] at hprogress hbegun htail ⊢
  rw [mkHandlerWriteLoop_cons]
  generalize mkHandlerWriteNode ⟨cfg, sys, cs, rest, 0⟩ 0 sr' = r at hprogress hbegun htail
  by_cases hpos : r.ret > 0
  · rw [if_pos hpos]
    cases hprogress with
    | done hret _ _ => rcases hret with h | h <;> rw [h] at hpos <;> exact absurd hpos (by decide)
    | aborted hret => rw [hret] at hpos; exact absurd hpos (by decide)
    | more hret hstarted =>
        refine ⟨fun _ => .inr ⟨sys₀, hsys₀, sr, rest, out ++ r.out, rfl, ?_, hbegun ?_, r.sr, rfl, hstarted⟩, fun hzero => ?_⟩
        · simp [Walk.cons]
        · rintro habort
          rw [habort] at hpos
          exact absurd hpos (by decide)
        · exact absurd hzero hpos.ne'
  rw [if_neg hpos]
  by_cases hgo : r.goesOn
  · rw [if_pos hgo]
    obtain ⟨hle, -⟩ := ServedFrom.of_walk hsys hsched Nat.one_pos hfresh (htail hgo)
    refine ⟨fun hret => absurd hret (not_lt.mpr hle), fun hret => ?_⟩
    have hlater := CompletedFrom.of_walk hsys hsched hfresh (htail hgo) hret
    cases hprogress with
    | done hdone hbody hout =>
        refine ⟨out ++ r.out ++ [.stage40], _, ?_, ⟨sys₀, hsys₀, _, _, _, hbegun hgo.2.2, hbody, hout, rfl⟩, hlater⟩
        simp [Walk.cons]
    | more hmore _ => exact absurd hmore hgo.1
    | aborted habort => exact absurd habort hgo.2.2
  · rw [if_neg hgo]
    exact ⟨fun hret => absurd hret (show ¬ (0 : Int) < -1 by decide),
      fun hret => absurd hret (show (-1 : Int) ≠ 0 by decide)⟩

/-- One write event. -/
theorem Completing.step {list : List SessionRequest} {b b' : Batch} {sys : Sys}
    (h : Completing cfg cs events list b) (hfresh : ∀ sr ∈ list, Fresh sr) (hsys : sys ∈ events)
    (hsched : Scheduled sys) (hserves : ServesOnce cfg cs b sys)
    (hstep : b.Step cfg cs sys b') : Completing cfg cs events list b' := by
  obtain ⟨hret, rfl⟩ := hstep.eq
  rcases h.begun hret with ⟨hlist, hout⟩ | ⟨sys₀, hsys₀, sr, rest, out, rfl, hout, hbegun, sr', hrest, hstarted⟩
  · rw [ServesOnce, hlist] at hserves
    rw [hlist, hout]
    cases list with
    | nil => exact ⟨fun hpos => absurd hpos (lt_irrefl (0 : Int)), fun _ => rfl⟩
    | cons sr rest =>
        have hsr := hfresh sr List.mem_cons_self
        refine Completing.of_progress [] hsys hsys hsched (fun sr hmem => hfresh sr (List.mem_cons_of_mem _ hmem))
          ?_ ?_ hserves
        · rw [hsr.mkHandlerWriteNode]
          exact hserves.1.progress hsched hsr.handledBy_eq hsr.bytesToSend_neg
        · rw [hsr.mkHandlerWriteNode]
          exact fun habort => .of_process hsr hserves.1 habort
  · rw [ServesOnce, hrest] at hserves
    rw [hrest, hout]
    refine Completing.of_progress out hsys₀ hsys hsched (fun sr hmem => hfresh sr (List.mem_cons_of_mem _ hmem))
      ?_ ?_ hserves
    · rw [hstarted.mkHandlerWriteNode]
      refine hstarted.toSending.progress hsched ?_
      rcases (hserves.1 hstarted.handled).2 hstarted.pending with hzero | hmore
      · exact .inl hzero
      · exact .inr ⟨rfl, hstarted.handled, hmore⟩
    · rw [hstarted.mkHandlerWriteNode]
      exact fun _ => hbegun.more (isFile_mkHttpSendFile _ _)

/-- A batch that is served has a whole answer to each of its requests. -/
theorem completed_of_run {list : List SessionRequest} {t : Batch} (hfresh : ∀ sr ∈ list, Fresh sr)
    (hsched : ∀ sys ∈ events, Scheduled sys)
    (h : Run (Guarded (ServesOnce cfg cs) (Batch.Step cfg cs)) (Batch.init list) events t) (ht : t.ret = 0) :
    CompletedFrom cfg cs events 0 list t.out := by
  have hrun := h.guarded_of_forall (P := fun sys => sys ∈ events ∧ Scheduled sys)
    fun sys hmem => ⟨hmem, hsched sys hmem⟩
  have hcompleting : Completing cfg cs events list t :=
    hrun.guarded_invariant (fun b sys b' hb hp hs => hb.step hfresh hp.1 hp.2 hs.1 hs.2)
      ⟨fun _ => .inl ⟨rfl, rfl⟩, fun hzero => absurd hzero (show (1 : Int) ≠ 0 by decide)⟩
  exact hcompleting.completed ht

end

/-! ## the bytes of a batch -/

/-- What goes out with a batch besides what its requests decide, by position: what the thread and
the host put into the headers, the rows of the plugins, and the file that is sent. -/
structure Wire where
  thread : Nat → HeaderThread
  server : Nat → Bytes
  now : Nat → Int
  timeout : Int
  rows : Nat → List (Bytes × Bytes)
  file : Nat → Bytes

/-- The bytes of an action for a request. -/
def Wire.bytes (x : Wire) (o : Nat × Out) : Bytes :=
  match o.2 with
  | .header h => (mkHeaderSendText (x.thread o.1) h true).getD []
  | out => out.wire (x.file o.1)

/-- A header with a body behind it. -/
def Wire.response (x : Wire) (node : Nat) (h : HeaderBlock) (body : Bytes) : Response :=
  ⟨statusLine (x.thread node) h.status, headerFields (x.thread node) (x.server node) (x.now node) x.timeout h (x.rows node),
    body⟩

/-- The headers that have been written. -/
def writtenHeaders (out : List (Nat × Out)) : List (Nat × HeaderBlock) :=
  out.filterMap fun o =>
    match o.2 with
    | .header h => some (o.1, h)
    | _ => none

/-- The plans of a list of requests. -/
def plansFrom (cfg : Config) (sys : Sys) (cs : ClientSession) : Nat → List SessionRequest → List (Ctx × Plan)
  | _, [] => []
  | node, sr :: rest =>
      (⟨cfg, sys, cs, rest, node⟩, mkRequestPlan ⟨cfg, sys, cs, rest, node⟩ sr) :: plansFrom cfg sys cs (node + 1) rest

/-- The responses of a batch: the headers that have been written, each with the body of its plan. -/
def Wire.responses (x : Wire) (plans : List (Ctx × Plan)) (out : List (Nat × Out)) : List Response :=
  List.zipWith (fun h plan => x.response h.1 h.2 (plan.2.body plan.1 (x.file h.1))) (writtenHeaders out) plans

/-- The headers have what a client needs to read them: texts of one line, a status of the table, and
no row of a plugin about the length of the body. -/
structure Wire.Clear (x : Wire) (out : List (Nat × Out)) : Prop where
  ready : ∀ node, (x.thread node).Ready (x.server node) (x.now node) x.timeout
  block : ∀ node h, (node, Out.header h) ∈ out → h.status ∈ statusResponse ∧ h.OneLined (x.rows node)
  rows : ∀ node, ∀ row ∈ x.rows node, NotLength row.1

/-- The file of a request has the size that the server has found. -/
def Wire.Sized (x : Wire) (plans : List (Ctx × Plan)) : Prop :=
  ∀ plan ∈ plans, (plan.2.window plan.1).isSome = true → ((x.file plan.1.node).length : Int) = plan.2.fileSize plan.1

instance (x : Wire) (plans : List (Ctx × Plan)) : Decidable (x.Sized plans) :=
  inferInstanceAs (Decidable (∀ plan ∈ plans, _ → _))

/-- Consecutive pieces are one part of the file. -/
theorem Chunks.wire {offset count : Int} {body : List Out} (h : Chunks offset count body) (hoffset : 0 ≤ offset)
    (file : Bytes) : 0 ≤ count ∧ body.flatMap (Out.wire file) = (file.drop offset.toNat).take count.toNat := by
  induction h with
  | nil offset => simp
  | @cons offset count k body hk _ ih =>
      obtain ⟨hcount, hrest⟩ := ih (by omega)
      refine ⟨by omega, ?_⟩
      rw [List.flatMap_cons, hrest, Out.wire, show (offset + k).toNat = offset.toNat + k.toNat by omega,
        ← List.drop_drop, show count.toNat = k.toNat + (count - k).toNat by omega, List.take_add]

section

variable {ctx : Ctx} {sr : SessionRequest} {answer : List Out}

theorem Fresh.outset {sr : SessionRequest} (h : Fresh sr) : sr.outset = (sr.method, -1, -1, -1, -1) := by
  obtain ⟨_, _, _, rfl⟩ := h
  rfl

/-- The window of the file begins at its beginning. -/
theorem Fresh.bytesOffset_eq {sr : SessionRequest} (h : Fresh sr) (ctx : Ctx) :
    (mkRequestPlan ctx sr).sr.bytesOffset = 0 := by
  have hflags := congrArg Flags.bytesOffset (mkRequestPlan_for ctx sr).flags
  have hkept : (parsedRequest ctx sr).bytesOffset = sr.bytesOffset :=
    mkRequestHeaderProcess_keeps (f := fun sr => sr.bytesOffset) (fun _ _ _ _ _ => rfl)
      (fun _ _ _ _ _ _ _ _ _ _ => rfl) ctx.cfg ctx.sys _
  obtain ⟨_, _, _, rfl⟩ := h
  exact hflags.trans hkept

/-- A body has no header in it. -/
theorem Body.no_header {ctx : Ctx} {plan : Plan} {body : List Out} (h : Body ctx plan body) :
    ∀ o ∈ body, o.isHeader = false := by
  unfold Body at h
  split at h
  · rcases h with rfl | ⟨t, rfl⟩
    · simp
    · simp [Out.isHeader]
  · next hwindow =>
      clear hwindow
      induction h with
      | nil offset => simp
      | cons _ _ ih =>
          intro o ho
          rcases List.mem_cons.mp ho with rfl | ho
          · rfl
          · exact ih o ho

/-- A plan that aborts says so. -/
theorem Plan.ret_of_aborts {plan : Plan} (h : plan.aborts = true) : (plan.run ctx).ret = exitAbort := by
  cases plan with
  | silent ret sr => exact of_decide_eq_true h
  | refuse ret status sr => exact of_decide_eq_true h
  | noHome sr => rfl
  | error status sr => cases h
  | noData sr => cases h
  | redirect sr => cases h
  | notModified sr => cases h
  | send sr => cases h

/-- **One answer**: its header is that of its plan, and the bytes behind it are those of the body. -/
theorem Completed.wire (h : Completed ctx sr answer) (hsr : Fresh sr) : ∃ b body,
    answer = .process :: .header b :: (body ++ [.stage40]) ∧
      (mkRequestPlan ctx sr).headers ctx = 1 ∧ (mkRequestPlan ctx sr).aborts = false ∧
      b.status = (mkRequestPlan ctx sr).answerStatus ctx ∧ b.chunked = false ∧
      b.contentLength = printedLength ((mkRequestPlan ctx sr).announced ctx) ∧
      (∀ o ∈ body, o.isHeader = false) ∧
      ∀ file, body.flatMap (Out.wire file) = (mkRequestPlan ctx sr).body ctx file := by
  obtain ⟨out, b, body, ⟨hret, hone, more, hmore, hbegun⟩, hbody, hout, rfl⟩ := h
  have hfor := mkRequestPlan_for ctx sr
  have houtset := @mkRequestPlan_outset ctx sr _ hsr.outset
  have hoffset := hsr.bytesOffset_eq ctx
  rw [mkRequestProcess_eq] at hret hbegun
  generalize mkRequestPlan ctx sr = plan at *
  have haborts : plan.aborts = false := by
    rw [← Bool.not_eq_true]
    exact fun habort => hret (Plan.ret_of_aborts habort)
  obtain ⟨b', tail, hrun, hwritten⟩ := Plan.run_written hfor houtset hone haborts
  rw [hrun, List.cons_append] at hbegun
  obtain ⟨-, hwhole⟩ := List.cons.inj (hout.symm.trans hbegun)
  obtain ⟨hb, htail⟩ := List.cons.inj hwhole
  obtain rfl := Out.header.inj hb
  refine ⟨b, body, by rw [hout]; rfl, hone, haborts, hwritten.status, hwritten.chunked, hwritten.length, hbody.no_header,
    fun file => ?_⟩
  rw [Body] at hbody
  rw [Plan.body]
  cases hwindow : plan.window ctx with
  | none =>
      rw [hwindow] at hbody hwritten
      have hnone : more = [] := by
        rcases more with _ | ⟨o, more⟩
        · rfl
        · have ho : o ∈ body := by
            rw [htail]
            simp
          have hfile := hmore o List.mem_cons_self
          rcases hbody with rfl | ⟨t, rfl⟩
          · cases ho
          · rw [List.mem_singleton.mp ho] at hfile
            cases hfile
      rw [htail, hnone, List.append_nil]
      exact hwritten.page _ rfl file
  | some window =>
      rw [hwindow] at hbody
      exact (Chunks.wire hbody (Plan.window_nonneg hone hoffset hwindow) file).2

/-- A header that can be read is written, and read back. -/
theorem Wire.Clear.header {x : Wire} {out : List (Nat × Out)} (hx : x.Clear out) {node : Nat} {b : HeaderBlock}
    (hb : (node, Out.header b) ∈ out) (body : Bytes) :
    x.bytes (node, .header b) ++ body = (x.response node b body).text ∧ (x.response node b body).Readable := by
  obtain ⟨hstatus, hlines⟩ := hx.block node b hb
  obtain ⟨-, hne, hnew⟩ := responseText_eq (Or.inl hstatus : (x.thread node).Knows b.status)
  obtain ⟨htext, hfields⟩ := mkHeaderSendText_eq (hx.ready node) hlines (.inl hstatus) true
  refine ⟨?_, ⟨hne, hnew⟩, hfields⟩
  simp only [Wire.bytes, htext, Option.getD_some]
  rfl

end

/-- Without a header only the bytes of the body count. -/
theorem Wire.flatMap_bytes (x : Wire) (node : Nat) {body : List Out} (h : ∀ o ∈ body, o.isHeader = false) :
    (body.map (node, ·)).flatMap x.bytes = body.flatMap (Out.wire (x.file node)) := by
  induction body with
  | nil => rfl
  | cons o body ih =>
      rw [List.map_cons, List.flatMap_cons, List.flatMap_cons, ih fun o ho => h o (List.mem_cons_of_mem _ ho)]
      cases o with
      | header b => exact absurd (h _ List.mem_cons_self) (by simp [Out.isHeader])
      | _ => rfl

theorem writtenHeaders_body (node : Nat) {body : List Out} (h : ∀ o ∈ body, o.isHeader = false) :
    writtenHeaders (body.map (node, ·)) = [] := by
  rw [writtenHeaders, List.filterMap_eq_nil_iff]
  intro o ho
  obtain ⟨o, hmem, rfl⟩ := List.mem_map.mp ho
  cases o with
  | header b => exact absurd (h _ hmem) (by simp [Out.isHeader])
  | _ => rfl

/-- Every plan is framed. -/
def AllFramed (plans : List (Ctx × Plan)) : Prop := ∀ plan ∈ plans, plan.2.Framed plan.1

instance (plans : List (Ctx × Plan)) : Decidable (AllFramed plans) :=
  inferInstanceAs (Decidable (∀ plan ∈ plans, plan.2.Framed plan.1))

/-- The answers of a list of requests, as the client reads them. -/
theorem CompletedFrom.responses {cfg : Config} {cs : ClientSession} {events : List Sys} {sys : Sys} {x : Wire}
    (hstill : ∀ s ∈ events, ∃ sendFile, s = sys.sending sendFile) {node : Nat} {list : List SessionRequest}
    {out : List (Nat × Out)} (hfresh : ∀ sr ∈ list, Fresh sr) (h : CompletedFrom cfg cs events node list out)
    (hx : x.Clear out) (hsized : x.Sized (plansFrom cfg sys cs node list)) :
    ∃ rs : List (Bool × Response), rs.map Prod.fst = list.map (fun sr => decide (sr.method = .head)) ∧
      out.flatMap x.bytes = rs.flatMap (fun r => r.2.text) ∧
      rs.map Prod.snd = x.responses (plansFrom cfg sys cs node list) out ∧ (∀ r ∈ rs, r.2.Readable) ∧
      ((∀ r ∈ rs, bodyLength r.1 r.2.start r.2.fields = some r.2.body.length) ↔
        AllFramed (plansFrom cfg sys cs node list)) := by
  induction list generalizing node out with
  | nil =>
      obtain rfl : out = [] := h
      exact ⟨[], rfl, rfl, rfl, by simp, by simp [plansFrom, AllFramed]⟩
  | cons sr rest ih =>
      obtain ⟨answer, later, rfl, ⟨s, hs, hcompleted⟩, hlater⟩ := h
      obtain ⟨sendFile, rfl⟩ := hstill s hs
      have hsr := hfresh sr List.mem_cons_self
      obtain ⟨b, body, rfl, hone, haborts, hstatus, hchunked, hlength, hheaders, hbytes⟩ := hcompleted.wire hsr
      obtain ⟨rs, hheads, htexts, hresponses, hreadable, hframed⟩ :=
        ih (fun sr hmem => hfresh sr (List.mem_cons_of_mem _ hmem)) hlater
          ⟨hx.ready, fun node b hb => hx.block node b (List.mem_append_right _ hb), hx.rows⟩
          (fun plan hplan => hsized plan (List.mem_cons_of_mem _ hplan))
      rw [show (⟨cfg, sys.sending sendFile, cs, rest, node⟩ : Ctx) = Ctx.sending ⟨cfg, sys, cs, rest, node⟩ sendFile from rfl,
        mkRequestPlan_sending] at *
      rw [Plan.headers_sending] at hone
      rw [Plan.answerStatus_sending] at hstatus
      rw [Plan.announced_sending] at hlength
      simp only [Plan.body_sending] at hbytes
      -- what the socket takes plays no part in the plan from here on
      generalize hctx : (⟨cfg, sys, cs, rest, node⟩ : Ctx) = ctx at *
      have hfor := mkRequestPlan_for ctx sr
      have houtset := @mkRequestPlan_outset ctx sr _ hsr.outset
      have hoffset := hsr.bytesOffset_eq ctx
      have hplans : plansFrom cfg sys cs node (sr :: rest) =
          (ctx, mkRequestPlan ctx sr) :: plansFrom cfg sys cs (node + 1) rest := by
        rw [plansFrom, hctx]
      rw [hplans] at hsized ⊢
      have hfile := hsized _ List.mem_cons_self
      rw [show ctx.node = node by rw [← hctx]] at hfile
      generalize mkRequestPlan ctx sr = plan at *
      have hmem : (node, Out.header b) ∈ (Out.process :: .header b :: (body ++ [.stage40])).map (node, ·) ++ later := by
        simp
      have hheader := hx.header hmem (plan.body ctx (x.file node))
      refine ⟨(decide (sr.method = .head), x.response node b (plan.body ctx (x.file node))) :: rs, ?_, ?_, ?_, ?_, ?_⟩
      · rw [List.map_cons, List.map_cons, hheads]
      · rw [List.flatMap_cons, ← htexts, ← hheader.1, List.flatMap_append, List.map_cons, List.map_cons, List.map_append,
          List.flatMap_cons, List.flatMap_cons, List.flatMap_append, x.flatMap_bytes node hheaders, hbytes]
        simp [Wire.bytes, Out.wire]
      · rw [List.map_cons, hresponses, Wire.responses, Wire.responses]
        have hwritten : writtenHeaders ((Out.process :: .header b :: (body ++ [.stage40])).map (node, ·) ++ later) =
            (node, b) :: writtenHeaders later := by
          have hbody := writtenHeaders_body node hheaders
          simp only [writtenHeaders] at hbody ⊢
          simp [List.filterMap_append, hbody]
        rw [hwritten, List.zipWith_cons_cons]
      · exact List.forall_mem_cons.mpr ⟨hheader.2, hreadable⟩
      · have hcut : bodyLength (decide (sr.method = .head)) (statusLine (x.thread node) b.status)
            (headerFields (x.thread node) (x.server node) (x.now node) x.timeout b (x.rows node)) =
              plan.clientLength ctx := by
          rw [bodyLength_headerFields (hx.block node b hmem).1 hchunked (hx.rows node), hstatus, hlength,
            Plan.clientLength, houtset.method]
          simp only [decide_eq_true_eq]
          rfl
        rw [List.forall_mem_cons, hframed, AllFramed, AllFramed, List.forall_mem_cons]
        refine and_congr ?_ Iff.rfl
        simp only [Wire.response, hcut]
        exact Plan.framed_iff hfor houtset hone haborts hoffset hfile

/-- A file of a hundred bytes. -/
def sampleWire : Wire where
  thread _ := sampleThread
  server _ := ascii "Monkey".toList
  now _ := 1000000000
  timeout := 15
  rows _ := []
  file _ := List.replicate 100 0x61

/-- Its header. -/
def sampleBlock (connection : ConnectionField) : HeaderBlock where
  status := 200
  lastModified := some 1
  connection := connection
  location := none
  contentType := some (ascii "text/plain\r\n".toList)
  chunked := false
  contentLength := some 100
  contentRange := none
  extraRows := []

theorem sampleBlock_oneLined {connection : ConnectionField} (h : ∀ max, connection ≠ .keepAlive max) :
    (sampleBlock connection).OneLined [] := by
  refine ⟨?_, fun max hmax => absurd hmax (h max), ?_, ?_, ?_, rfl, ?_, by simp [sampleBlock, mkPluginHeaderExtraRows]⟩
  · rintro _ ⟨⟩
    exact (by decide : Time.InRange 1)
  · rintro _ ⟨⟩
  · rintro _ ⟨⟩
    exact ⟨ascii "text/plain".toList, by decide, by decide⟩
  · rintro _ ⟨⟩
    exact ⟨by decide, by decide⟩
  · rintro _ ⟨⟩

end Monkey
