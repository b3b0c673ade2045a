import Monkey.Http.Reply
import Monkey.Request.Batch

/-!
# Monkey.Request.Serve

A batch of pipelined requests served to its end (`mk_handler_write` returns `0`)
over any number of write events and partial file sends.  Every request is answered
exactly once and in list order when no write event has to come back to a request
behind the first (`ServesOnce`): a walk that comes back runs STAGE_40 again for the
requests it has finished, and processes again those that had nothing to send.
-/

namespace Monkey

/-! ## what an answer looks like -/

/-- Consecutive pieces of a file that make up `count` bytes from `offset` on. -/
inductive Chunks : Int → Int → List Out → Prop
  | nil (offset : Int) : Chunks offset 0 []
  | cons {offset count k : Int} {out : List Out} : 0 < k → Chunks (offset + k) (count - k) out →
      Chunks offset count (.file offset k :: out)

/-- One more `mk_http_send_file`. -/
theorem Chunks.snoc {offset count k : Int} {out : List Out} (h : Chunks offset count out)
    (hk : 0 ≤ k) :
    Chunks offset (count + k) (out ++ if 0 < k then [.file (offset + count) k] else []) := by
  by_cases hpos : 0 < k
  · rw [if_pos hpos]
    induction h with
    | nil offset =>
        rw [add_zero, zero_add, List.nil_append]
        exact .cons hpos (by rw [sub_self]; exact .nil _)
    | @cons offset count j out hj _ ih =>
        refine .cons hj ?_
        rw [show offset + j + (count - j) = offset + count by ring,
          show count - j + k = count + k - j by ring] at ih
        exact ih
  · obtain rfl : k = 0 := by omega
    rwa [if_neg hpos, List.append_nil, add_zero]

/-- The body of an answer: its window of a file, or at most one page. -/
def Body (ctx : Ctx) (plan : Plan) (body : List Out) : Prop :=
  match plan.window ctx with
  | none => body = [] ∨ ∃ t, body = [.page t]
  | some (offset, count) => Chunks offset count body

/-- A whole answer: processed once, one header, the body once, STAGE_40 once. -/
def Answered (ctx : Ctx) (plan : Plan) (out : List Out) : Prop :=
  ∃ h body, Body ctx plan body ∧ out = .process :: .header h :: (body ++ [.stage40])

/-- Every request from `node` on is answered once, in list order, each under the
surroundings of one of the write events. -/
def ServedFrom (cfg : Config) (cs : ClientSession) (events : List Sys) :
    Nat → List SessionRequest → List (Nat × Out) → Prop
  | _, [], out => out = []
  | node, sr :: rest, out =>
      ∃ answer later, out = answer.map (node, ·) ++ later ∧
        (∃ sys ∈ events, Answered ⟨cfg, sys, cs, rest, node⟩
          (mkRequestPlan ⟨cfg, sys, cs, rest, node⟩ sr) answer) ∧
        ServedFrom cfg cs events (node + 1) rest later

/-- Answers come in list order. -/
theorem ServedFrom.ordered {cfg : Config} {cs : ClientSession} {events : List Sys} {node : Nat}
    {list : List SessionRequest} {out : List (Nat × Out)}
    (h : ServedFrom cfg cs events node list out) :
    (out.map (·.1)).Pairwise (· ≤ ·) ∧ ∀ o ∈ out, node ≤ o.1 := by
  induction list generalizing node out with
  | nil =>
      obtain rfl : out = [] := h
      simp
  | cons sr rest ih =>
      obtain ⟨answer, later, rfl, _, hlater⟩ := h
      obtain ⟨hsorted, hnode⟩ := ih hlater
      constructor
      · rw [List.map_append, List.map_map, List.pairwise_append]
        refine ⟨List.pairwise_of_forall_mem_list ?_, hsorted, ?_⟩
        all_goals
          simp only [List.mem_map, Function.comp]
          rintro a ⟨_, _, rfl⟩ b ⟨o, ho, rfl⟩
        · exact le_rfl
        · exact Nat.le_of_succ_le (hnode o ho)
      · intro o ho
        rcases List.mem_append.mp ho with ho | ho
        · obtain ⟨_, _, rfl⟩ := List.mem_map.mp ho
          exact le_rfl
        · exact Nat.le_of_succ_le (hnode o ho)

/-! ## the condition -/

/-- `mk_socket_send_file` sends between one byte and the count asked for. -/
def Scheduled (sys : Sys) : Prop :=
  ∀ node n, sys.sendFile node n 0 = 0 ∧
    ∀ count, 0 < count → 1 ≤ sys.sendFile node n count ∧ sys.sendFile node n count ≤ count

/-- What the next `mk_socket_send_file` of a request leaves of `count` bytes. -/
def leftAfter (ctx : Ctx) (sr : SessionRequest) (count : Int) : Int :=
  count - ctx.sys.sendFile ctx.node sr.loop count

/-- A request that is processed is answered with one header by the server itself.
Its file goes out in one piece, or it is the first of the list, no plugin has taken
it, and what is left of it is a positive `int`. -/
def ServesNode (ctx : Ctx) (sr : SessionRequest) : Prop :=
  let plan := mkRequestPlan ctx sr
  sr.handledBy = false →
    (sr.bytesToSend < 0 → plan.headers ctx = 1 ∧ ∀ window ∈ plan.window ctx,
      0 ≤ window.2 ∧ (leftAfter ctx plan.sr window.2 = 0 ∨
        (ctx.node = 0 ∧ plan.sr.handledBy = false ∧ 0 < toInt (leftAfter ctx plan.sr window.2)))) ∧
    (0 < sr.bytesToSend →
      leftAfter ctx sr sr.bytesToSend = 0 ∨ 0 < toInt (leftAfter ctx sr sr.bytesToSend))

instance (ctx : Ctx) (sr : SessionRequest) : Decidable (ServesNode ctx sr) :=
  inferInstanceAs (Decidable (_ → (_ → _ ∧ _) ∧ (_ → _ ∨ _)))

/-- Every request a write event comes to can be served by it. -/
def ServesOnce (cfg : Config) (cs : ClientSession) (b : Batch) (sys : Sys) : Prop :=
  Visits ServesNode cfg sys cs 0 0 b.list

instance (cfg : Config) (cs : ClientSession) (b : Batch) (sys : Sys) :
    Decidable (ServesOnce cfg cs b sys) := Visits.decidable cfg sys cs 0 0 b.list

/-! ## one node -/

/-- A request whose file is being sent: `out` has been written for it. -/
structure Sending (ctx : Ctx) (plan : Plan) (sr : SessionRequest) (out : List Out) : Prop where
  left : 0 ≤ sr.bytesToSend
  sent : ∃ h body offset count, plan.window ctx = some (offset, count) ∧
    out = .process :: .header h :: body ∧ Chunks offset (count - sr.bytesToSend) body ∧
    sr.bytesOffset = offset + (count - sr.bytesToSend)

/-- A request a later write event comes back to. -/
structure Started (ctx : Ctx) (plan : Plan) (sr : SessionRequest) (out : List Out) : Prop
    extends Sending ctx plan sr out where
  first : ctx.node = 0
  handled : sr.handledBy = false
  pending : 0 < sr.bytesToSend

/-- What a node returns once `out` has been written for it. -/
inductive Progress (ctx : Ctx) (plan : Plan) (out : List Out) (r : Res) : Prop
  | done (ret : r.ret = exitNormal ∨ r.ret = exitError) {h : HeaderBlock} {body : List Out}
      (body_eq : Body ctx plan body) (out_eq : out = .process :: .header h :: body)
  | more (ret : r.ret > 0) (started : Started ctx plan r.sr out)
  | aborted (ret : r.ret = exitAbort)

/-- One `mk_http_send_file`, in the event that processed the request or in a later
one. -/
theorem Sending.progress {ctx ctx' : Ctx} {plan : Plan} {sr : SessionRequest} {out : List Out}
    (h : Sending ctx plan sr out) (hsched : Scheduled ctx'.sys)
    (hserves : leftAfter ctx' sr sr.bytesToSend = 0 ∨ (ctx.node = 0 ∧ sr.handledBy = false ∧
      0 < toInt (leftAfter ctx' sr sr.bytesToSend))) :
    Progress ctx plan (out ++ (mkHttpSendFile ctx' sr).out) (mkHttpSendFile ctx' sr) := by
  obtain ⟨hpos, hb, body, offset, count, hwindow, hout, hchunks, hoffset⟩ := h
  obtain ⟨k, hk⟩ : ∃ k, ctx'.sys.sendFile ctx'.node sr.loop sr.bytesToSend = k := ⟨_, rfl⟩
  rw [leftAfter, hk] at hserves
  have hrange : 0 ≤ k ∧ k ≤ sr.bytesToSend := by
    obtain ⟨hnone, hsome⟩ := hsched ctx'.node sr.loop
    rcases hpos.eq_or_lt with hzero | hpos
    · rw [← hzero, hnone] at hk
      omega
    · have := hsome _ hpos
      omega
  rw [mkHttpSendFile_eq hk hrange.1]
  have hnext := hchunks.snoc hrange.1
  rw [← hoffset, show count - sr.bytesToSend + k = count - (sr.bytesToSend - k) by ring] at hnext
  have hout' : out ++ (if 0 < k then [.file sr.bytesOffset k] else []) = .process :: .header hb ::
      (body ++ if 0 < k then [.file sr.bytesOffset k] else []) := by
    rw [hout]
    rfl
  by_cases hzero : sr.bytesToSend - k = 0
  · refine .done (.inl (by rw [hzero]; rfl)) ?_ hout'
    rw [hzero, sub_zero] at hnext
    rw [Body, hwindow]
    exact hnext
  · obtain ⟨hfirst, hhandled, hmore⟩ := hserves.resolve_left hzero
    refine .more hmore ⟨⟨by simp only; omega, hb, _, offset, count, hwindow, hout', hnext, ?_⟩,
      hfirst, hhandled, by simp only; omega⟩
    simp only [hoffset]
    ring

/-- A request processed for the first time. -/
theorem ServesNode.progress {ctx : Ctx} {sr : SessionRequest} (hserves : ServesNode ctx sr)
    (hsched : Scheduled ctx.sys) (hhandled : sr.handledBy = false) (hnew : sr.bytesToSend < 0) :
    Progress ctx (mkRequestPlan ctx sr) ((mkRequestProcess ctx sr).after [.process]).out
      ((mkRequestProcess ctx sr).after [.process]) := by
  obtain ⟨hone, hwin⟩ := (hserves hhandled).1 hnew
  have hreply := Plan.reply (mkRequestPlan_for ctx sr) hone
  rw [← mkRequestProcess_eq] at hreply
  generalize mkRequestPlan ctx sr = plan at hwin hreply
  generalize mkRequestProcess ctx sr = r at hreply
  cases hreply with
  | text hret _ _ _ hpage hnone _ =>
      refine .done hret ?_ rfl
      rw [Body, hnone]
      exact hpage
  | aborted _ _ _ => exact .aborted rfl
  | @file sr' hb offset count hflags hh hloop _ hwindow _ =>
      obtain ⟨hcount, hleft⟩ := hwin (offset, count) hwindow
      have hbytes : sr'.bytesToSend = count := congrArg Flags.bytesToSend hflags
      have hoff : sr'.bytesOffset = offset := congrArg Flags.bytesOffset hflags
      have hsending : Sending ctx plan sr' [.process, .header hb] := by
        refine ⟨by omega, hb, [], offset, count, hwindow, rfl, ?_, by omega⟩
        rw [hbytes, sub_self]
        exact .nil _
      rw [leftAfter, ← hloop, ← hh, ← hbytes] at hleft
      cases hsending.progress hsched hleft with
      | done hret hbody hout => exact .done hret hbody hout
      | more hret hstarted => exact .more hret hstarted
      | aborted hret => exact .aborted hret

/-! ## one walk -/

/-- A request under way is continued. -/
theorem Started.mkHandlerWriteNode {ctx : Ctx} {plan : Plan} {sr : SessionRequest} {out : List Out}
    (h : Started ctx plan sr out) (ctx' : Ctx) (finalStatus : Int) :
    mkHandlerWriteNode ctx' finalStatus sr = mkHttpSendFile ctx' sr := by
  unfold Monkey.mkHandlerWriteNode
  rw [if_pos ⟨h.handled, h.pending⟩]

section

variable {cfg : Config} {cs : ClientSession} {events : List Sys}

/-- A walk from a node on: `out` has been written for the node in earlier events,
and the rest of the list is served when the walk gets to it. -/
theorem Progress.walk {sys : Sys} {ctx : Ctx} {plan : Plan} (out : List Out) {node : Nat}
    {finalStatus : Int} {sr : SessionRequest} {rest : List SessionRequest}
    (h : let r := mkHandlerWriteNode ⟨cfg, sys, cs, rest, node⟩ finalStatus sr
      Progress ctx plan (out ++ r.out) r)
    (hrest : let r := mkHandlerWriteNode ⟨cfg, sys, cs, rest, node⟩ finalStatus sr
      let tail := mkHandlerWriteLoop cfg sys cs (node + 1) r.ret rest
      r.goesOn → tail.ret ≤ 0 ∧
        (tail.ret = 0 → ServedFrom cfg cs events (node + 1) rest tail.out)) :
    let walk := mkHandlerWriteLoop cfg sys cs node finalStatus (sr :: rest)
    (walk.ret = 0 → ∃ answer later, out.map (node, ·) ++ walk.out = answer.map (node, ·) ++ later ∧
      Answered ctx plan answer ∧ ServedFrom cfg cs events (node + 1) rest later) ∧
    (0 < walk.ret → ∃ sr' out', walk.list = sr' :: rest ∧ Started ctx plan sr' out' ∧
      out.map (node, ·) ++ walk.out = out'.map (node, ·)) := by
  simp only at h hrest ⊢
  rw [mkHandlerWriteLoop_cons]
  generalize Monkey.mkHandlerWriteNode ⟨cfg, sys, cs, rest, node⟩ finalStatus sr = r at h hrest
  cases h with
  | @done hret hb body hbody hout =>
      have hpos : ¬ r.ret > 0 := by rcases hret with h | h <;> rw [h] <;> decide
      rw [if_neg hpos]
      by_cases hgo : r.goesOn
      · rw [if_pos hgo]
        obtain ⟨hle, hserved⟩ := hrest hgo
        refine ⟨fun hzero => ⟨out ++ r.out ++ [.stage40], _, ?_, ?_, hserved hzero⟩, fun hgt => ?_⟩
        · simp [Walk.cons]
        · exact ⟨hb, body, hbody, by rw [hout]; rfl⟩
        · exact absurd hgt (not_lt.mpr hle)
      · rw [if_neg hgo]
        exact ⟨fun hzero => absurd hzero (by decide : (-1 : Int) ≠ 0),
          fun hgt => absurd hgt (by decide : ¬ (0 : Int) < -1)⟩
  | more hret hstarted =>
      rw [if_pos hret]
      refine ⟨fun hzero => absurd hzero hret.ne', fun _ => ⟨r.sr, _, rfl, hstarted, ?_⟩⟩
      simp [Walk.cons]
  | aborted hret =>
      rw [if_neg (by rw [hret]; decide), if_neg fun hgo => hgo.2.2 hret]
      exact ⟨fun hzero => absurd hzero (by decide : (-1 : Int) ≠ 0),
          fun hgt => absurd hgt (by decide : ¬ (0 : Int) < -1)⟩

/-- A walk over requests behind the first serves them all, or closes. -/
theorem ServedFrom.of_walk {sys : Sys} (hsys : sys ∈ events) (hsched : Scheduled sys) {node : Nat}
    {finalStatus : Int} {list : List SessionRequest} (hnode : 0 < node)
    (hfresh : ∀ sr ∈ list, Fresh sr) (h : Visits ServesNode cfg sys cs node finalStatus list) :
    let walk := mkHandlerWriteLoop cfg sys cs node finalStatus list
    walk.ret ≤ 0 ∧ (walk.ret = 0 → ServedFrom cfg cs events node list walk.out) := by
  induction list generalizing node finalStatus with
  | nil => exact ⟨le_rfl, fun _ => rfl⟩
  | cons sr rest ih =>
      obtain ⟨hserves, htail⟩ := h
      have hsr := hfresh sr List.mem_cons_self
      have hprogress := hserves.progress hsched hsr.handledBy_eq hsr.bytesToSend_neg
      rw [← hsr.mkHandlerWriteNode _ finalStatus] at hprogress
      obtain ⟨hzero, hmore⟩ := Progress.walk [] hprogress fun hgo =>
        ih (by omega) (fun sr hmem => hfresh sr (List.mem_cons_of_mem _ hmem)) (htail hgo)
      refine ⟨not_lt.mp fun hgt => ?_, fun hret => ?_⟩
      · obtain ⟨_, _, _, hstarted, _⟩ := hmore hgt
        exact absurd hstarted.first hnode.ne'
      · obtain ⟨answer, later, hout, hanswered, hserved⟩ := hzero hret
        exact ⟨answer, later, hout, ⟨sys, hsys, hanswered⟩, hserved⟩

/-! ## the whole run -/

/-- A batch between two write events: not begun, the first request under way,
served, or closed. -/
inductive Serving (cfg : Config) (cs : ClientSession) (events : List Sys)
    (list : List SessionRequest) (b : Batch) : Prop
  | waiting (ret : 0 < b.ret) (list_eq : b.list = list) (out_eq : b.out = [])
  | sending {sys : Sys} {sr sr' : SessionRequest} {rest : List SessionRequest} {out : List Out}
      (ret : 0 < b.ret) (mem : sys ∈ events) (list_eq : list = sr :: rest)
      (rest_eq : b.list = sr' :: rest) (out_eq : b.out = out.map (0, ·))
      (started : Started ⟨cfg, sys, cs, rest, 0⟩ (mkRequestPlan ⟨cfg, sys, cs, rest, 0⟩ sr) sr' out)
  | served (ret : b.ret = 0) (served : ServedFrom cfg cs events 0 list b.out)
  | closed (ret : b.ret < 0)

/-- What a walk makes of a batch whose first request has been processed under
`sys₀`. -/
theorem Serving.of_progress {sys sys₀ : Sys} {sr sr' : SessionRequest} {rest : List SessionRequest}
    (out : List Out) (hsys₀ : sys₀ ∈ events) (hsys : sys ∈ events) (hsched : Scheduled sys)
    (hfresh : ∀ sr ∈ rest, Fresh sr)
    (hprogress : let r := mkHandlerWriteNode ⟨cfg, sys, cs, rest, 0⟩ 0 sr'
      Progress ⟨cfg, sys₀, cs, rest, 0⟩ (mkRequestPlan ⟨cfg, sys₀, cs, rest, 0⟩ sr)
        (out ++ r.out) r)
    (hserves : Visits ServesNode cfg sys cs 0 0 (sr' :: rest)) :
    let walk := mkHandlerWriteList cfg sys cs (sr' :: rest)
    Serving cfg cs events (sr :: rest) ⟨walk.ret, walk.list, out.map (0, ·) ++ walk.out⟩ := by
  obtain ⟨hzero, hmore⟩ := Progress.walk out hprogress fun hgo =>
    ServedFrom.of_walk hsys hsched Nat.one_pos hfresh (hserves.2 hgo)
  simp only
  rcases lt_trichotomy (mkHandlerWriteList cfg sys cs (sr' :: rest)).ret 0 with hneg | hret | hpos
  · exact .closed hneg
  · obtain ⟨answer, later, hout, hanswered, hserved⟩ := hzero hret
    exact .served hret ⟨answer, later, hout, ⟨sys₀, hsys₀, hanswered⟩, hserved⟩
  · obtain ⟨sr'', out', hlist, hstarted, hout⟩ := hmore hpos
    exact .sending hpos hsys₀ rfl hlist hout hstarted

/-- One write event. -/
theorem Serving.step {list : List SessionRequest} {b b' : Batch} {sys : Sys}
    (h : Serving cfg cs events list b) (hfresh : ∀ sr ∈ list, Fresh sr) (hsys : sys ∈ events)
    (hsched : Scheduled sys) (hserves : ServesOnce cfg cs b sys) (hstep : b.Step cfg cs sys b') :
    Serving cfg cs events list b' := by
  obtain ⟨hret, rfl⟩ := hstep.eq
  cases h with
  | waiting _ hlist hout =>
      rw [ServesOnce, hlist] at hserves
      rw [hlist, hout]
      cases list with
      | nil => exact .served rfl rfl
      | cons sr rest =>
          have hsr := hfresh sr List.mem_cons_self
          refine Serving.of_progress [] hsys hsys hsched
            (fun sr hmem => hfresh sr (List.mem_cons_of_mem _ hmem)) ?_ hserves
          rw [hsr.mkHandlerWriteNode]
          exact hserves.1.progress hsched hsr.handledBy_eq hsr.bytesToSend_neg
  | @sending sys₀ sr sr' rest out _ hsys₀ hlist hrest hout hstarted =>
      subst hlist
      rw [ServesOnce, hrest] at hserves
      rw [hrest, hout]
      refine Serving.of_progress out hsys₀ hsys hsched
        (fun sr hmem => hfresh sr (List.mem_cons_of_mem _ hmem)) ?_ hserves
      rw [hstarted.mkHandlerWriteNode]
      refine hstarted.toSending.progress hsched ?_
      rcases (hserves.1 hstarted.handled).2 hstarted.pending with hzero | hmore
      · exact .inl hzero
      · exact .inr ⟨rfl, hstarted.handled, hmore⟩
  | served hzero _ => omega
  | closed hneg => omega

end

/-- **Served once**: a batch whose walks return `0` in the end, over any number of
write events that send between one byte and what they are asked for, has each
request processed once, its header and the bytes of its file written once and
STAGE_40 run once, in list order, as long as no event has to come back to a
request behind the first and every request is answered with one header. -/
theorem batch_served_once {cfg : Config} {cs : ClientSession} {list : List SessionRequest}
    {syss : List Sys} {t : Batch} (hfresh : ∀ sr ∈ list, Fresh sr)
    (hsched : ∀ sys ∈ syss, Scheduled sys)
    (h : Run (Guarded (ServesOnce cfg cs) (Batch.Step cfg cs)) (Batch.init list) syss t)
    (ht : t.ret = 0) : ServedFrom cfg cs syss 0 list t.out := by
  have hrun := h.guarded_of_forall (P := fun sys => sys ∈ syss ∧ Scheduled sys)
    fun sys hmem => ⟨hmem, hsched sys hmem⟩
  have hserving : Serving cfg cs syss list t :=
    hrun.guarded_invariant (fun b sys b' hb hp hs => hb.step hfresh hp.1 hp.2 hs.1 hs.2)
      (.waiting (by decide : (0 : Int) < 1) rfl rfl)
  cases hserving with
  | waiting hret _ _ => omega
  | sending hret _ _ _ _ _ => omega
  | served _ hserved => exact hserved
  | closed hneg => omega

/-- A socket that takes forty bytes at a time. -/
def slowSys : Sys := { sampleSys with sendFile := fun _ _ count => min count 40 }

theorem scheduled_slowSys : Scheduled slowSys := by
  intro node n
  constructor
  · rfl
  · intro count hpos
    simp only [slowSys]
    omega

/-- A request that has nothing to send after its header. -/
def headRequest : Bytes := ascii "HEAD /a HTTP/1.1\r\nHost: a\r\n\r\n".toList

/-- A later round of a connection: a file sent in three pieces, and a request behind
it. -/
theorem batch_served_once_slowSys :
    let cs := parsedSession 1 (sampleRequest ++ headRequest)
    ∃ t, Run (Guarded (ServesOnce sampleConfig cs) (Batch.Step sampleConfig cs))
        (Batch.init cs.requestList) [slowSys, slowSys, slowSys] t ∧
      ServedFrom sampleConfig cs [slowSys, slowSys, slowSys] 0 cs.requestList t.out := by
  intro cs
  have hend : ([slowSys, slowSys, slowSys].foldlM (fun b sys =>
      if ServesOnce sampleConfig cs b sys then b.write sampleConfig cs sys else none)
      (Batch.init cs.requestList)).map (·.ret) = some 0 := by decide +kernel
  obtain ⟨t, ht, hret⟩ := Option.map_eq_some_iff.mp hend
  have hrun := Run.guarded_of_foldlM ht
  refine ⟨t, hrun, batch_served_once (parsedSession_fresh 1 _) ?_ hrun hret⟩
  simp [scheduled_slowSys]

/-- The same two requests the other way round: the answer to the first one is sent
again with every piece of the file. -/
theorem head_then_file_served_again :
    ¬ ∀ (cfg : Config) (cs : ClientSession) (list : List SessionRequest) (syss : List Sys)
      (t : Batch), (∀ sr ∈ list, Fresh sr) → (∀ sys ∈ syss, Scheduled sys) →
      Run (Batch.Step cfg cs) (Batch.init list) syss t → t.ret = 0 →
      ServedFrom cfg cs syss 0 list t.out := by
  intro hall
  have hend : ([slowSys, slowSys, slowSys].foldlM
      (Batch.write sampleConfig (parsedSession 1 (headRequest ++ sampleRequest)))
      (Batch.init (parsedSession 1 (headRequest ++ sampleRequest)).requestList)).map
      (fun t => (t.ret, t.out.map (·.1))) = some (0, [0, 0, 0, 1, 1, 1, 0, 0, 0, 1, 0, 0, 0, 1, 1]) := by
    decide +kernel
  obtain ⟨t, ht, hout⟩ := Option.map_eq_some_iff.mp hend
  obtain ⟨hret, hnodes⟩ := Prod.mk.inj hout
  have hserved := hall sampleConfig (parsedSession 1 (headRequest ++ sampleRequest)) _
    [slowSys, slowSys, slowSys] t (parsedSession_fresh 1 _) (by simp [scheduled_slowSys])
    (Run.of_foldlM ht) hret
  have hordered := hserved.ordered.1
  rw [hnodes] at hordered
  revert hordered
  decide

end Monkey
