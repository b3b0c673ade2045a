import Monkey.Http.Reply
import Monkey.Request.Batch

/-!
# Monkey.Request.Linger

What the `Connection` field of a response promises and what the server does once
it is sent.  The field is decided by `mk_http_keepalive_check` on the last request
of the list; the connection is closed because of the request itself, because the
walk is aborted, or by the same check at the end of the batch.  The two agree when
the first request decides alone (`FirstDecides`): a request with others behind it
has to close, and an abort may only happen to a request whose check fails.
-/

namespace Monkey

/-! ## the connection behind a batch -/

/-- The connection is closed after the response to the request at `node`: the batch
ends there, on a negative return value or a negative keep-alive check
(`mk_http_request_end`). -/
def Batch.closesAfter (cfg : Config) (cs : ClientSession) (b : Batch) (node : Nat) : Prop :=
  (b.out.getLast?.map (·.1)) = some node ∧ (b.ret < 0 ∨ mkHttpKeepaliveCheck cfg cs b.list < 0)

instance (cfg : Config) (cs : ClientSession) (b : Batch) (node : Nat) :
    Decidable (b.closesAfter cfg cs node) := inferInstanceAs (Decidable (_ ∧ _))

/-- `Connection: Keep-Alive` only where the connection stays, `Connection: Close`
exactly where it is closed. -/
def KeepsPromise (cfg : Config) (cs : ClientSession) (b : Batch) : Prop :=
  ∀ node h, (node, .header h) ∈ b.out →
    ((∃ max, h.connection = .keepAlive max) → ¬ b.closesAfter cfg cs node) ∧
      (h.connection = .close ↔ b.closesAfter cfg cs node)

/-! ## the condition -/

/-- What `mk_http_send_file` returns when it is asked for `count` bytes. -/
def sendStatus (ctx : Ctx) (sr : SessionRequest) (count : Int) : Int :=
  let nbytes := ctx.sys.sendFile ctx.node sr.loop count
  if nbytes < 0 then exitAbort else toInt (count - nbytes)

/-- What processing a request returns; an error response without a file counts as
`EXIT_NORMAL`, the walk treats both alike. -/
def Plan.status (ctx : Ctx) (plan : Plan) : Int :=
  if plan.aborts then exitAbort
  else match plan.window ctx with
    | none => exitNormal
    | some (_, count) => sendStatus ctx plan.sr count

/-- The content length of an error response. -/
def errorLength (ctx : Ctx) (status : Int) (sr : SessionRequest) : Int :=
  match errorPageFile ctx.sys status sr with
  | some (_, info) => info.size
  | none => (defaultPage status sr).elim sr.headers.contentLength fun page => (page.length : Int)

/-- The request of a plan with the content length of its response. -/
def Plan.answered (ctx : Ctx) (plan : Plan) : SessionRequest :=
  let length := match plan with
    | .error status sr | .refuse _ status sr => errorLength ctx status sr
    | .noHome sr => errorLength ctx mkClientNotFound sr
    | plan => plan.sr.headers.contentLength
  { plan.sr with headers := { plan.sr.headers with contentLength := length } }

/-- A node that returns `status` for the request `sr`: with others behind it, it
closes the connection or is not through; alone, it is aborted only when the
keep-alive check fails. -/
def Decides (cfg : Config) (cs : ClientSession) (rest : List SessionRequest) (sr : SessionRequest)
    (status : Int) : Prop :=
  if rest = [] then status = exitAbort → mkHttpKeepaliveCheck cfg cs [sr] < 0
  else status > 0 ∨ status = exitAbort ∨
    ((status = exitNormal ∨ status = exitError) ∧ sr.closeNow = true)

instance (cfg : Config) (cs : ClientSession) (rest : List SessionRequest) (sr : SessionRequest)
    (status : Int) : Decidable (Decides cfg cs rest sr status) :=
  inferInstanceAs (Decidable (if rest = [] then _ → _ else _ ∨ _ ∨ _))

/-- A node decides when its file is continued, when it is processed (once, and
answered by the server) and when it is skipped; `out` has been written before. -/
def DecidesNode (ctx : Ctx) (out : List (Nat × Out)) (sr : SessionRequest) : Prop :=
  if sr.handledBy = false ∧ sr.bytesToSend > 0 then
    Decides ctx.cfg ctx.cs ctx.rest sr (sendStatus ctx sr sr.bytesToSend)
  else if sr.handledBy = false ∧ sr.bytesToSend < 0 then
    out = [] ∧ ((mkRequestPlan ctx sr).headers ctx = 1 ∨
      (mkRequestPlan ctx sr).headers ctx = 0 ∧ (mkRequestPlan ctx sr).aborts = true) ∧
    Decides ctx.cfg ctx.cs ctx.rest ((mkRequestPlan ctx sr).answered ctx)
      ((mkRequestPlan ctx sr).status ctx)
  else Decides ctx.cfg ctx.cs ctx.rest sr exitNormal

instance (ctx : Ctx) (out : List (Nat × Out)) (sr : SessionRequest) :
    Decidable (DecidesNode ctx out sr) :=
  inferInstanceAs (Decidable (if sr.handledBy = false ∧ sr.bytesToSend > 0 then Decides _ _ _ _ _
    else if sr.handledBy = false ∧ sr.bytesToSend < 0 then _ ∧ _ ∧ Decides _ _ _ _ _
    else Decides _ _ _ _ _))

/-- The first request of the list decides about the connection. -/
def FirstDecides (cfg : Config) (cs : ClientSession) (b : Batch) (sys : Sys) : Prop :=
  ∀ sr ∈ b.list.head?, DecidesNode ⟨cfg, sys, cs, b.list.tail, 0⟩ b.out sr

instance (cfg : Config) (cs : ClientSession) (b : Batch) (sys : Sys) :
    Decidable (FirstDecides cfg cs b sys) := inferInstanceAs (Decidable (∀ sr ∈ _, _))

/-! ## the keep-alive check -/

/-- The check is negative or `0`. -/
theorem mkHttpKeepaliveCheck_neg_iff (cfg : Config) (cs : ClientSession)
    (list : List SessionRequest) :
    mkHttpKeepaliveCheck cfg cs list < 0 ↔ mkHttpKeepaliveCheck cfg cs list ≠ 0 := by
  unfold mkHttpKeepaliveCheck
  split
  · decide
  · repeat' split
    all_goals decide

/-- A request not yet parsed at the end of the list fails the check. -/
theorem mkHttpKeepaliveCheck_fresh {cfg : Config} {cs : ClientSession} {sr : SessionRequest}
    {rest : List SessionRequest} (hrest : rest ≠ []) (hfresh : ∀ sr ∈ rest, Fresh sr) :
    mkHttpKeepaliveCheck cfg cs (sr :: rest) < 0 := by
  obtain ⟨_, _, _, hlast⟩ := hfresh _ (List.getLast_mem hrest)
  unfold mkHttpKeepaliveCheck
  rw [List.getLast?_cons_of_ne_nil hrest, List.getLast?_eq_some_getLast hrest, hlast]
  simp

/-- A request that closes fails it too. -/
theorem mkHttpKeepaliveCheck_closeNow {cfg : Config} {cs : ClientSession} {sr : SessionRequest}
    (h : sr.closeNow = true) : mkHttpKeepaliveCheck cfg cs [sr] < 0 := by
  unfold mkHttpKeepaliveCheck
  simp only [List.getLast?_singleton]
  repeat' split
  all_goals decide

/-- The field of a response tells what the check says. -/
theorem connectionField_close_iff {ctx : Ctx} {sr : SessionRequest} (h : sr.headers.connection = 0) :
    connectionField ctx sr = .close ↔ mkHttpKeepaliveCheck ctx.cfg ctx.cs (sr :: ctx.rest) < 0 := by
  rw [mkHttpKeepaliveCheck_neg_iff, connectionField, if_pos h]
  split
  · next hzero =>
      refine ⟨fun hclose => ?_, fun hne => absurd hzero hne⟩
      split at hclose <;> contradiction
  · next hne => exact ⟨fun _ => hne, fun _ => rfl⟩

/-! ## what a request returns -/

theorem mkHttpSendFile_ret (ctx : Ctx) (sr : SessionRequest) :
    (mkHttpSendFile ctx sr).ret = sendStatus ctx sr sr.bytesToSend := by
  unfold mkHttpSendFile sendStatus
  simp only
  generalize ctx.sys.sendFile ctx.node sr.loop sr.bytesToSend = k
  by_cases hpos : k > 0
  · rw [if_pos hpos, if_neg (by omega)]
  · rw [if_neg hpos]
    by_cases hneg : k < 0
    · rw [if_pos hneg, if_pos hneg]
    · obtain rfl : k = 0 := by omega
      rw [if_neg hneg, if_neg hneg, sub_zero]

theorem mkHttpSendFile_headers (ctx : Ctx) (sr : SessionRequest) :
    (mkHttpSendFile ctx sr).sr.headers = sr.headers := by
  unfold mkHttpSendFile
  simp only
  split
  · rfl
  · split <;> rfl

theorem mkRequestError_length (ctx : Ctx) (status : Int) (sr : SessionRequest) :
    (mkRequestError ctx status sr).sr.headers.contentLength = errorLength ctx status sr := by
  unfold mkRequestError errorLength
  simp only
  rw [show errorPageFile ctx.sys status
    { sr with headers := { sr.headers with status := status } } = errorPageFile ctx.sys status sr
    from rfl]
  cases errorPageFile ctx.sys status sr with
  | some page =>
      simp only [Res.after, mkHttpSendFile_headers]
      rfl
  | none => rfl

/-- The file is sent under the length of the header. -/
theorem mkHttpInitTail_length {ctx : Ctx} {sr : SessionRequest}
    (h : lateRefusal ctx.cfg sr = false) :
    (mkHttpInitTail ctx sr).sr.headers.contentLength = sr.headers.contentLength := by
  unfold mkHttpInitTail
  simp only [mkHttpRangeSet_mkHeaderSend]
  by_cases hcl : (mkHeaderSend ctx sr).sr.headers.contentLength = 0
  · rw [if_pos hcl]
    rfl
  · rw [if_neg hcl]
    by_cases hm : (mkHeaderSend ctx sr).sr.method = .get ∨ (mkHeaderSend ctx sr).sr.method = .post
    · have hset : (mkHttpRangeSet ctx.cfg sr.fileInfo.size sr).1 = 0 := by
        by_contra hr
        rw [lateRefusal, decide_eq_true ⟨hcl, hm, hr⟩] at h
        contradiction
      rw [if_pos hm, if_neg (not_not.mpr hset), Res.after, mkHttpSendFile_headers]
      rfl
    · rw [if_neg hm]
      rfl

/-- The content length of a response that may be aborted. -/
theorem Plan.answered_length {ctx : Ctx} {plan : Plan} (hone : plan.headers ctx = 1)
    (hstatus : plan.status ctx = exitAbort) :
    (plan.run ctx).sr.headers.contentLength = (plan.answered ctx).headers.contentLength := by
  cases plan with
  | silent ret sr => rfl
  | error status sr => exact mkRequestError_length ctx status sr
  | refuse ret status sr => exact mkRequestError_length ctx status sr
  | noHome sr =>
      rcases mkUserInit_cases ctx sr with ⟨path, huser, _⟩ | ⟨huser, _⟩ | ⟨_, hunknown⟩
      · rw [Plan.run, huser]
        exact mkRequestError_length ctx mkClientNotFound _
      · rw [Plan.run, huser]
        exact mkRequestError_length ctx mkClientNotFound sr
      · simp [Plan.headers, hunknown] at hone
  | noData sr => contradiction
  | redirect sr => contradiction
  | notModified sr => contradiction
  | send sr =>
      refine mkHttpInitTail_length ?_
      cases hl : lateRefusal ctx.cfg sr with
      | false => rfl
      | true => simp [Plan.headers, hl] at hone

/-- What is left of a reply: its header, and the flags of its plan. -/
theorem Reply.header {ctx : Ctx} {plan : Plan} {r : Res} (h : Reply ctx plan r) :
    ∃ hb out offset count, r.out = .header hb :: out ∧
      r.sr.flags = plan.sr.flags.sending offset count ∧
      hb.connection = connectionField ctx r.sr := by
  cases h with
  | text _ hflags _ hfield _ _ _ => exact ⟨_, _, _, _, rfl, hflags, hfield⟩
  | @file sr hb offset count hflags _ _ hfield _ _ =>
      obtain ⟨offset', count', hmoved, hsame⟩ := mkHttpSendFile_flags ctx sr
      refine ⟨hb, _, offset', count', rfl, ?_, hfield.trans hsame.symm⟩
      rw [Res.after, hmoved, hflags]
      rfl
  | aborted hflags hfield _ =>
      obtain ⟨offset, count, hflags⟩ := hflags
      exact ⟨_, _, offset, count, rfl, hflags, hfield⟩

/-- A reply returns the status of its plan. -/
theorem Reply.ret_eq {ctx : Ctx} {plan : Plan} {r : Res} (h : Reply ctx plan r) :
    r.ret = plan.status ctx ∨ (plan.status ctx = exitNormal ∧ r.ret = exitError) := by
  cases h with
  | text hret _ _ _ _ hwindow haborts =>
      have hstatus : plan.status ctx = exitNormal := by
        rw [Plan.status, haborts, hwindow]
        rfl
      rcases hret with rfl | rfl
      · exact .inl hstatus.symm
      · exact .inr ⟨hstatus, rfl⟩
  | @file sr hb offset count hflags _ hloop _ hwindow haborts =>
      have hcount : sr.bytesToSend = count := congrArg Flags.bytesToSend hflags
      left
      rw [Res.after, mkHttpSendFile_ret, Plan.status, haborts, hwindow, hcount]
      unfold sendStatus
      rw [hloop]
      rfl
  | aborted _ _ haborts =>
      left
      rw [Plan.status, haborts]
      rfl

/-- The decision depends on the flags, and on the length of an aborted response. -/
theorem Decides.congr {cfg : Config} {cs : ClientSession} {rest : List SessionRequest}
    {sr sr' : SessionRequest} {status offset count : Int} (h : Decides cfg cs rest sr status)
    (hflags : sr'.flags = sr.flags.sending offset count)
    (hlen : status = exitAbort → sr'.headers.contentLength = sr.headers.contentLength) :
    Decides cfg cs rest sr' status := by
  unfold Decides at h ⊢
  split
  · next hrest =>
      rw [if_pos hrest] at h
      intro habort
      rw [mkHttpKeepaliveCheck_congr (congrArg Flags.closeNow hflags)
        (congrArg Flags.keepAlive hflags) (congrArg Flags.protocol hflags)
        (congrArg Flags.connection hflags) (hlen habort)]
      exact h habort
  · next hrest =>
      rw [if_neg hrest] at h
      rwa [show sr'.closeNow = sr.closeNow from congrArg Flags.closeNow hflags]

/-- `EXIT_NORMAL` and `EXIT_ERROR` decide alike. -/
theorem Decides.error {cfg : Config} {cs : ClientSession} {rest : List SessionRequest}
    {sr : SessionRequest} (h : Decides cfg cs rest sr exitNormal) :
    Decides cfg cs rest sr exitError := by
  unfold Decides at h ⊢
  split
  · exact fun habort => absurd habort (by decide)
  · next hrest =>
      rw [if_neg hrest] at h
      rcases h with h | h | ⟨_, h⟩
      · exact absurd h (by decide)
      · exact absurd h (by decide)
      · exact .inr (.inr ⟨.inr rfl, h⟩)

/-- The decision of a plan is the decision of its reply. -/
theorem Decides.of_reply {ctx : Ctx} {plan : Plan} (hone : plan.headers ctx = 1)
    (hreply : Reply ctx plan (plan.run ctx))
    (h : Decides ctx.cfg ctx.cs ctx.rest (plan.answered ctx) (plan.status ctx)) :
    Decides ctx.cfg ctx.cs ctx.rest (plan.run ctx).sr (plan.run ctx).ret := by
  obtain ⟨_, _, offset, count, _, hflags, _⟩ := hreply.header
  have hrun : Decides ctx.cfg ctx.cs ctx.rest (plan.run ctx).sr (plan.status ctx) :=
    h.congr hflags (Plan.answered_length hone)
  rcases hreply.ret_eq with hret | ⟨hstatus, hret⟩
  · rwa [hret]
  · rw [hstatus] at hrun
    rw [hret]
    exact hrun.error

/-- A plan that aborts returns so. -/
theorem Plan.run_aborts {ctx : Ctx} {plan : Plan} (h : plan.aborts = true) :
    (plan.run ctx).ret = exitAbort := by
  cases plan with
  | silent ret sr => exact of_decide_eq_true h
  | refuse ret status sr => exact of_decide_eq_true h
  | noHome sr => rfl
  | _ => contradiction

/-! ## the whole run -/

/-- Everything written so far is for the first request, under the header `h`. -/
def Only (h : HeaderBlock) (out : List (Nat × Out)) : Prop :=
  ∀ o ∈ out, o.1 = 0 ∧ (o.2.isHeader = true → o.2 = .header h)

theorem Only.append {h : HeaderBlock} {out out' : List (Nat × Out)} (ho : Only h out)
    (ho' : Only h out') : Only h (out ++ out') := by
  intro o hmem
  rcases List.mem_append.mp hmem with hmem | hmem
  · exact ho o hmem
  · exact ho' o hmem

theorem Only.of_node {h : HeaderBlock} {out : List Out}
    (ho : ∀ o ∈ out, o.isHeader = true → o = .header h) : Only h (out.map (0, ·)) := by
  intro o hmem
  obtain ⟨o', hmem', rfl⟩ := List.mem_map.mp hmem
  exact ⟨rfl, ho o' hmem'⟩

/-- A batch between two write events: not begun, its first request answered and
nothing else, or closed without a word. -/
inductive Lingers (cfg : Config) (cs : ClientSession) (list : List SessionRequest) (b : Batch) :
    Prop
  | waiting (ret : 0 < b.ret) (list_eq : b.list = list) (out_eq : b.out = [])
  | answered {sr sr' : SessionRequest} {rest : List SessionRequest} {h : HeaderBlock}
      (list_eq : list = sr :: rest) (rest_eq : b.list = sr' :: rest) (begun : b.out ≠ [])
      (only : Only h b.out)
      (field : h.connection = .close ↔ mkHttpKeepaliveCheck cfg cs (sr' :: rest) < 0)
      (closed : b.ret < 0 → mkHttpKeepaliveCheck cfg cs (sr' :: rest) < 0)
  | silent (ret : b.ret ≤ 0) (none : ∀ o ∈ b.out, o.2.isHeader = false)

section

variable {cfg : Config} {cs : ClientSession} {sys : Sys}

/-- What a walk makes of a batch whose first request decides. -/
theorem Lingers.of_node {sr₀ sr : SessionRequest} {rest : List SessionRequest} {h : HeaderBlock}
    {out : List (Nat × Out)} {r : Res}
    (hr : mkHandlerWriteNode ⟨cfg, sys, cs, rest, 0⟩ 0 sr = r)
    (hfresh : ∀ sr ∈ rest, Fresh sr) (hdecides : Decides cfg cs rest r.sr r.ret)
    (hfield : h.connection = .close ↔ mkHttpKeepaliveCheck cfg cs (r.sr :: rest) < 0)
    (hout : Only h out) (hnode : ∀ o ∈ r.out, o.isHeader = true → o = .header h)
    (hbegun : out ≠ [] ∨ r.out ≠ []) :
    let walk := mkHandlerWriteList cfg sys cs (sr :: rest)
    Lingers cfg cs (sr₀ :: rest) ⟨walk.ret, walk.list, out ++ walk.out⟩ := by
  have hstage : ∀ o ∈ r.out ++ [.stage40], o.isHeader = true → o = .header h := by
    intro o hmem hheader
    rcases List.mem_append.mp hmem with hmem | hmem
    · exact hnode o hmem hheader
    · obtain rfl := List.mem_singleton.mp hmem
      contradiction
  simp only
  rw [mkHandlerWriteList, mkHandlerWriteLoop_cons, hr]
  by_cases hpos : r.ret > 0
  · rw [if_pos hpos]
    refine .answered rfl rfl ?_ (hout.append ?_) hfield fun hneg => absurd hpos (not_lt.mpr hneg.le)
    · intro hnil
      obtain ⟨hnil, hnil'⟩ := List.append_eq_nil_iff.mp hnil
      rcases hbegun with hne | hne
      · exact hne hnil
      · exact hne (by simpa [Walk.cons] using hnil')
    · simpa [Walk.cons] using Only.of_node hnode
  · rw [if_neg hpos]
    by_cases hgo : r.goesOn
    · rw [if_pos hgo]
      cases rest with
      | nil =>
          refine .answered rfl rfl ?_ (hout.append ?_) hfield fun hneg => absurd hneg (lt_irrefl (0 : Int))
          · simp [Walk.cons]
          · simpa [Walk.cons, mkHandlerWriteLoop] using Only.of_node hstage
      | cons next rest =>
          rcases hdecides with hd | hd | hd
          · exact absurd hd hgo.1
          · exact absurd hd hgo.2.2
          · exact absurd hd hgo.2.1
    · rw [if_neg hgo]
      refine .answered rfl rfl ?_ (hout.append ?_) hfield fun _ => ?_
      · simp [Walk.cons]
      · simpa [Walk.cons] using Only.of_node hstage
      · by_cases hrest : rest = []
        · subst hrest
          by_cases habort : r.ret = exitAbort
          · exact hdecides habort
          · by_cases hclose : (r.ret = exitNormal ∨ r.ret = exitError) ∧ r.sr.closeNow = true
            · exact mkHttpKeepaliveCheck_closeNow hclose.2
            · exact absurd ⟨hpos, hclose, habort⟩ hgo
        · exact mkHttpKeepaliveCheck_fresh hrest hfresh

/-- The event that processes the first request. -/
theorem Lingers.of_process {sr : SessionRequest} {rest : List SessionRequest} (hsr : Fresh sr)
    (hfresh : ∀ sr ∈ rest, Fresh sr)
    (hone : let ctx : Ctx := ⟨cfg, sys, cs, rest, 0⟩
      (mkRequestPlan ctx sr).headers ctx = 1 ∨
        (mkRequestPlan ctx sr).headers ctx = 0 ∧ (mkRequestPlan ctx sr).aborts = true)
    (hdecides : let ctx : Ctx := ⟨cfg, sys, cs, rest, 0⟩
      Decides cfg cs rest ((mkRequestPlan ctx sr).answered ctx) ((mkRequestPlan ctx sr).status ctx)) :
    let walk := mkHandlerWriteList cfg sys cs (sr :: rest)
    Lingers cfg cs (sr :: rest) ⟨walk.ret, walk.list, [] ++ walk.out⟩ := by
  have hnode := hsr.mkHandlerWriteNode ⟨cfg, sys, cs, rest, 0⟩ 0
  have hfor := mkRequestPlan_for ⟨cfg, sys, cs, rest, 0⟩ sr
  have hcount := Plan.headerCount_run hfor
  rw [mkRequestProcess_eq] at hnode
  simp only at hone hdecides
  rcases hone with hone | ⟨hnone, haborts⟩
  · have hreply := Plan.reply hfor hone
    obtain ⟨hb, page, offset, count, hout, hflags, hconn⟩ := hreply.header
    have hfield : ((mkRequestPlan ⟨cfg, sys, cs, rest, 0⟩ sr).run
        ⟨cfg, sys, cs, rest, 0⟩).sr.headers.connection = 0 := by
      rw [hfor.flags] at hflags
      refine (congrArg Flags.field hflags).trans ?_
      obtain ⟨_, _, _, rfl⟩ := hsr
      exact congrArg (·.1.connection) (mkRequestHeaderProcess_outside cfg sys _)
    have hclose := @connectionField_close_iff ⟨cfg, sys, cs, rest, 0⟩ _ hfield
    rw [← hconn] at hclose
    refine Lingers.of_node hnode hfresh (Decides.of_reply hone hreply hdecides) hclose
      (by rintro _ ⟨⟩) ?_ (.inr (by simp [Res.after]))
    -- the header counted is the one in front
    rw [hout, hone] at hcount
    have hpage : ∀ o ∈ page, ¬ o.isHeader = true :=
      List.countP_eq_zero.mp (Nat.succ.inj ((List.countP_cons_of_pos rfl).symm.trans hcount))
    intro o hmem hheader
    rw [Res.after, hout] at hmem
    rcases List.mem_cons.mp hmem with rfl | hmem
    · contradiction
    · rcases List.mem_cons.mp hmem with rfl | hmem
      · rfl
      · exact absurd hheader (hpage o hmem)
  · rw [hnone] at hcount
    have habort := @Plan.run_aborts ⟨cfg, sys, cs, rest, 0⟩ _ haborts
    simp only
    rw [mkHandlerWriteList, mkHandlerWriteLoop_cons, hnode,
      if_neg (by rw [Res.after, habort]; decide), if_neg fun hgo => hgo.2.2 habort]
    refine .silent (by decide : (-1 : Int) ≤ 0) fun o hmem => ?_
    have hall : headerCount ([.process] ++ ((mkRequestPlan ⟨cfg, sys, cs, rest, 0⟩ sr).run
        ⟨cfg, sys, cs, rest, 0⟩).out ++ [.stage40]) = 0 := by
      rw [headerCount_append, headerCount_append, hcount]
      rfl
    simp only [Walk.cons, List.nil_append, List.append_nil] at hmem
    obtain ⟨o', hmem', rfl⟩ := List.mem_map.mp hmem
    exact eq_false_of_ne_true (List.countP_eq_zero.mp hall o' hmem')

/-- One write event. -/
theorem Lingers.step {list : List SessionRequest} {b b' : Batch} (h : Lingers cfg cs list b)
    (hfresh : ∀ sr ∈ list, Fresh sr) (hfirst : FirstDecides cfg cs b sys)
    (hstep : b.Step cfg cs sys b') : Lingers cfg cs list b' := by
  obtain ⟨hret, rfl⟩ := hstep.eq
  cases h with
  | waiting _ hlist hout =>
      rw [FirstDecides, hlist] at hfirst
      rw [hlist, hout]
      cases list with
      | nil => exact .silent le_rfl (by rintro _ ⟨⟩)
      | cons sr rest =>
          have hsr := hfresh sr List.mem_cons_self
          have hneg := hsr.bytesToSend_neg
          replace hfirst := hfirst sr rfl
          rw [DecidesNode, if_neg fun hsend => absurd hsend.2 (by omega), if_pos ⟨hsr.handledBy_eq, hneg⟩] at hfirst
          exact Lingers.of_process hsr (fun sr hmem => hfresh sr (List.mem_cons_of_mem _ hmem))
            hfirst.2.1 hfirst.2.2
  | @answered sr sr' rest hb hlist hrest hbegun honly hfield hclosed =>
      subst hlist
      rw [FirstDecides, hrest] at hfirst
      rw [hrest]
      replace hfirst := hfirst sr' rfl
      rw [DecidesNode] at hfirst
      have hrest' : ∀ sr ∈ rest, Fresh sr := fun sr hmem => hfresh sr (List.mem_cons_of_mem _ hmem)
      by_cases hsend : sr'.handledBy = false ∧ sr'.bytesToSend > 0
      · rw [if_pos hsend] at hfirst
        obtain ⟨offset, count, hflags, _⟩ := mkHttpSendFile_flags ⟨cfg, sys, cs, rest, 0⟩ sr'
        have hlen := congrArg ResponseHeaders.contentLength
          (mkHttpSendFile_headers ⟨cfg, sys, cs, rest, 0⟩ sr')
        have hdecides := hfirst.congr hflags fun _ => hlen
        rw [← mkHttpSendFile_ret] at hdecides
        refine Lingers.of_node (if_pos hsend) hrest' hdecides ?_ honly ?_ (.inl hbegun)
        · rw [mkHttpKeepaliveCheck_congr (congrArg Flags.closeNow hflags)
            (congrArg Flags.keepAlive hflags) (congrArg Flags.protocol hflags)
            (congrArg Flags.connection hflags) hlen]
          exact hfield
        · intro o hmem hheader
          exact absurd hheader (List.countP_eq_zero.mp (headerCount_mkHttpSendFile _ _) o hmem)
      · rw [if_neg hsend] at hfirst
        by_cases hnew : sr'.handledBy = false ∧ sr'.bytesToSend < 0
        · rw [if_pos hnew] at hfirst
          exact absurd hfirst.1 hbegun
        · rw [if_neg hnew] at hfirst
          have hskip : mkHandlerWriteNode ⟨cfg, sys, cs, rest, 0⟩ 0 sr' = ⟨0, sr', []⟩ := by
            rw [mkHandlerWriteNode, if_neg hsend, if_neg hnew]
          exact Lingers.of_node hskip hrest' hfirst hfield honly (by rintro _ ⟨⟩) (.inl hbegun)
  | silent hle _ => omega

/-- What a batch that is through has promised. -/
theorem Lingers.keepsPromise {list : List SessionRequest} {b : Batch} (h : Lingers cfg cs list b)
    (hret : b.ret ≤ 0) : KeepsPromise cfg cs b := by
  intro node hb hmem
  cases h with
  | waiting hpos _ _ => omega
  | silent _ hnone => exact absurd (hnone _ hmem) (by simp [Out.isHeader])
  | @answered _ sr' rest h _ hrest _ honly hfield hclosed =>
      obtain ⟨hzero, hheader⟩ := honly _ hmem
      obtain rfl : hb = h := Out.header.inj (hheader rfl)
      obtain rfl : node = 0 := hzero
      have hlast : b.out.getLast?.map (·.1) = some 0 := by
        rw [List.getLast?_eq_some_getLast (List.ne_nil_of_mem hmem), Option.map_some,
          (honly _ (List.getLast_mem _)).1]
      have hcloses : b.closesAfter cfg cs 0 ↔ mkHttpKeepaliveCheck cfg cs (sr' :: rest) < 0 := by
        rw [Batch.closesAfter, hrest]
        exact ⟨fun ⟨_, h⟩ => h.elim hclosed id, fun h => ⟨hlast, .inr h⟩⟩
      rw [hcloses, hfield]
      refine ⟨?_, Iff.rfl⟩
      rintro ⟨max, hkeep⟩ hneg
      rw [hfield.mpr hneg] at hkeep
      contradiction

end

/-- **The connection field**: over every run of a batch to its end in which the first
request decides alone, a response says `Connection: Keep-Alive` only if the server
keeps the connection after it, and `Connection: Close` exactly if it closes the
connection after it. -/
theorem connection_field_kept {cfg : Config} {cs : ClientSession} {list : List SessionRequest}
    {syss : List Sys} {t : Batch} (hfresh : ∀ sr ∈ list, Fresh sr)
    (h : Run (Guarded (FirstDecides cfg cs) (Batch.Step cfg cs)) (Batch.init list) syss t)
    (ht : t.ret ≤ 0) : KeepsPromise cfg cs t := by
  have hlingers : Lingers cfg cs list t :=
    h.guarded_invariant (fun b sys b' hb hp hs => hb.step hfresh hp hs)
      (.waiting (by decide : (0 : Int) < 1) rfl rfl)
  exact hlingers.keepsPromise ht

/-- A request that asks for the connection to be closed. -/
def closingRequest : Bytes :=
  ascii "GET /a HTTP/1.1\r\nHost: a\r\nConnection: Close\r\n\r\n".toList

/-- It is answered and the connection closed, whatever comes behind it. -/
theorem connection_field_kept_closingRequest :
    let cs := parsedSession 1 (closingRequest ++ sampleRequest)
    ∃ t, Run (Guarded (FirstDecides sampleConfig cs) (Batch.Step sampleConfig cs))
      (Batch.init cs.requestList) [sampleSys] t ∧ KeepsPromise sampleConfig cs t := by
  intro cs
  have hrun : Run (Guarded (FirstDecides sampleConfig cs) (Batch.Step sampleConfig cs))
      (Batch.init cs.requestList) [sampleSys] _ := .cons ⟨by decide +kernel, rfl⟩ (.nil _)
  exact ⟨_, hrun, connection_field_kept (parsedSession_fresh 1 _) hrun (by decide +kernel)⟩

/-- The header sent for a file of a hundred bytes when another request follows. -/
def pipelinedHeader : HeaderBlock where
  status := 200
  lastModified := some 1
  connection := .close
  location := none
  contentType := some (ascii "text/plain\r\n".toList)
  chunked := false
  contentLength := some 100
  contentRange := none
  extraRows := []

/-- Two requests that keep the connection: the first response says it is closed. -/
theorem pipelined_says_close :
    ¬ ∀ (cfg : Config) (cs : ClientSession) (list : List SessionRequest) (syss : List Sys)
      (t : Batch), (∀ sr ∈ list, Fresh sr) → Run (Batch.Step cfg cs) (Batch.init list) syss t →
      t.ret ≤ 0 → KeepsPromise cfg cs t := by
  intro hall
  have hpromise := hall sampleConfig (parsedSession 1 (sampleRequest ++ sampleRequest)) _
    [sampleSys] _ (parsedSession_fresh 1 (sampleRequest ++ sampleRequest)) (.cons rfl (.nil _))
    (by decide +kernel) 0 pipelinedHeader (by decide +kernel)
  have hcloses := hpromise.2.mp rfl
  revert hcloses
  decide +kernel

end Monkey
