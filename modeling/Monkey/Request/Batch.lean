import Monkey.Lib.Run
import Monkey.Http.Answer
import Monkey.Request.Read
import Monkey.Request.Write

/-!
# Monkey.Request.Batch

A batch of pipelined requests over the write events that serve it: every event
walks the list from its head again (`mk_handler_write`), as long as the last walk
returned a positive value.  Over such a run at most one response header is written
for each request exactly when no answer takes two headers and no request is
processed again after it has been answered (`AnswersOnce`).
-/

namespace Monkey

/-! ## the run of a batch -/

/-- A batch between two write events: what the last walk returned (`1` before the
first one), the request list, and everything written so far, by position. -/
structure Batch where
  ret : Int
  list : List SessionRequest
  out : List (Nat × Out)

def Batch.init (list : List SessionRequest) : Batch := ⟨1, list, []⟩

/-- One write event; there is none after a walk that is through. -/
def Batch.write (cfg : Config) (cs : ClientSession) (b : Batch) (sys : Sys) : Option Batch :=
  if b.ret > 0 then
    let walk := mkHandlerWriteList cfg sys cs b.list
    some ⟨walk.ret, walk.list, b.out ++ walk.out⟩
  else none

/-- The step relation of a batch; every event has its own surroundings. -/
def Batch.Step (cfg : Config) (cs : ClientSession) (b : Batch) (sys : Sys) (b' : Batch) : Prop :=
  b.write cfg cs sys = some b'

theorem Batch.Step.eq {cfg : Config} {cs : ClientSession} {b b' : Batch} {sys : Sys}
    (h : b.Step cfg cs sys b') : b.ret > 0 ∧
      b' = ⟨(mkHandlerWriteList cfg sys cs b.list).ret, (mkHandlerWriteList cfg sys cs b.list).list,
        b.out ++ (mkHandlerWriteList cfg sys cs b.list).out⟩ := by
  unfold Batch.Step Batch.write at h
  split at h
  · next hret => exact ⟨hret, (Option.some.inj h).symm⟩
  · contradiction

/-- A request as `mk_request_parse` builds it. -/
def Fresh (sr : SessionRequest) : Prop :=
  ∃ body method data, sr = { body := body, method := method, data := data }

theorem mkRequestParseLoop_fresh {cs : ClientSession} {fuel i : Nat} {nodes : List SessionRequest}
    (h : mkRequestParseLoop cs fuel i = some nodes) : ∀ sr ∈ nodes, Fresh sr := by
  induction fuel generalizing i nodes with
  | zero =>
      obtain rfl := Option.some.inj h
      rintro _ ⟨⟩
  | succ fuel ih =>
      rw [mkRequestParseLoop] at h
      split at h
      · simp only at h
        generalize (if cs.counterConnections > 0 then _ else _ : Int) = stop at h
        split at h
        · contradiction
        · obtain ⟨rest, hrest, rfl⟩ := Option.map_eq_some_iff.mp h
          rintro sr (_ | ⟨_, hmem⟩)
          · exact ⟨_, _, _, rfl⟩
          · exact ih hrest sr hmem
      · obtain rfl := Option.some.inj h
        rintro _ ⟨⟩

/-- The batch of a round is fresh. -/
theorem mkRequestParse_fresh {cs : ClientSession} (h : cs.requestList = []) :
    ∀ sr ∈ (mkRequestParse cs).2.requestList, Fresh sr := by
  unfold mkRequestParse
  cases hloop : mkRequestParseLoop cs (cs.bodyPosEnd + 2).toNat 0 with
  | none =>
      simp only [h]
      rintro _ ⟨⟩
  | some nodes =>
      have hnodes := mkRequestParseLoop_fresh hloop
      simp only [h, List.nil_append]
      split
      · split <;> exact hnodes
      · exact hnodes

theorem Fresh.handledBy_eq {sr : SessionRequest} (h : Fresh sr) : sr.handledBy = false := by
  obtain ⟨_, _, _, rfl⟩ := h
  rfl

theorem Fresh.bytesToSend_neg {sr : SessionRequest} (h : Fresh sr) : sr.bytesToSend < 0 := by
  obtain ⟨_, _, _, rfl⟩ := h
  exact (by decide : (-1 : Int) < 0)

/-! ## one walk -/

/-- A fresh request is processed. -/
theorem Fresh.mkHandlerWriteNode {sr : SessionRequest} (h : Fresh sr) (ctx : Ctx)
    (finalStatus : Int) :
    mkHandlerWriteNode ctx finalStatus sr = (mkRequestProcess ctx sr).after [.process] := by
  have hneg := h.bytesToSend_neg
  unfold Monkey.mkHandlerWriteNode
  rw [if_neg fun hsend => absurd hsend.2 (by omega), if_pos ⟨h.handledBy_eq, hneg⟩]

/-- The walk goes on after a node. -/
def Res.goesOn (r : Res) : Prop :=
  ¬ r.ret > 0 ∧ ¬ ((r.ret = exitNormal ∨ r.ret = exitError) ∧ r.sr.closeNow = true) ∧
    r.ret ≠ exitAbort

instance (r : Res) : Decidable r.goesOn := inferInstanceAs (Decidable (_ ∧ _ ∧ _))

/-- `P` holds of every node the walk comes to. -/
def Visits (P : Ctx → SessionRequest → Prop) (cfg : Config) (sys : Sys) (cs : ClientSession) :
    Nat → Int → List SessionRequest → Prop
  | _, _, [] => True
  | node, finalStatus, sr :: rest =>
      P ⟨cfg, sys, cs, rest, node⟩ sr ∧
        ((mkHandlerWriteNode ⟨cfg, sys, cs, rest, node⟩ finalStatus sr).goesOn →
          Visits P cfg sys cs (node + 1)
            (mkHandlerWriteNode ⟨cfg, sys, cs, rest, node⟩ finalStatus sr).ret rest)

instance Visits.decidable {P : Ctx → SessionRequest → Prop} [∀ ctx sr, Decidable (P ctx sr)]
    (cfg : Config) (sys : Sys) (cs : ClientSession) :
    ∀ node finalStatus list, Decidable (Visits P cfg sys cs node finalStatus list)
  | _, _, [] => .isTrue trivial
  | node, finalStatus, sr :: rest =>
      have := Visits.decidable (P := P) cfg sys cs (node + 1)
        (mkHandlerWriteNode ⟨cfg, sys, cs, rest, node⟩ finalStatus sr).ret rest
      inferInstanceAs (Decidable (_ ∧ (_ → _)))

/-- What a walk does with its first node. -/
theorem mkHandlerWriteLoop_cons (cfg : Config) (sys : Sys) (cs : ClientSession) (node : Nat)
    (finalStatus : Int) (sr : SessionRequest) (rest : List SessionRequest) :
    let r := mkHandlerWriteNode ⟨cfg, sys, cs, rest, node⟩ finalStatus sr
    mkHandlerWriteLoop cfg sys cs node finalStatus (sr :: rest) =
      if r.ret > 0 then Walk.cons node r.sr r.out ⟨r.ret, rest, []⟩
      else if r.goesOn then
        Walk.cons node r.sr (r.out ++ [.stage40])
          (mkHandlerWriteLoop cfg sys cs (node + 1) r.ret rest)
      else Walk.cons node r.sr (r.out ++ [.stage40]) ⟨-1, rest, []⟩ := by
  simp only
  rw [mkHandlerWriteLoop]
  generalize mkHandlerWriteNode ⟨cfg, sys, cs, rest, node⟩ finalStatus sr = r
  simp only
  by_cases hpos : r.ret > 0
  · rw [if_pos hpos, if_pos hpos]
  · rw [if_neg hpos, if_neg hpos]
    by_cases hclose : (r.ret = exitNormal ∨ r.ret = exitError) ∧ r.sr.closeNow = true
    · rw [if_pos hclose, if_neg fun h => h.2.1 hclose]
    · rw [if_neg hclose]
      by_cases habort : r.ret = exitAbort
      · rw [if_pos habort, if_neg fun h => h.2.2 habort]
      · rw [if_neg habort, if_pos ⟨hpos, hclose, habort⟩]

/-- A walk keeps the nodes of the list. -/
theorem mkHandlerWriteLoop_length (cfg : Config) (sys : Sys) (cs : ClientSession) (node : Nat)
    (finalStatus : Int) (list : List SessionRequest) :
    (mkHandlerWriteLoop cfg sys cs node finalStatus list).list.length = list.length := by
  induction list generalizing node finalStatus with
  | nil => rfl
  | cons sr rest ih =>
      rw [mkHandlerWriteLoop_cons]
      repeat' split
      all_goals simp [Walk.cons, ih]

/-- A walk writes for the nodes it comes to. -/
theorem mkHandlerWriteLoop_nodes {cfg : Config} {sys : Sys} {cs : ClientSession} {node : Nat}
    {finalStatus : Int} {list : List SessionRequest} {x : Nat × Out}
    (h : x ∈ (mkHandlerWriteLoop cfg sys cs node finalStatus list).out) :
    node ≤ x.1 ∧ x.1 < node + list.length := by
  induction list generalizing node finalStatus with
  | nil => exact absurd h List.not_mem_nil
  | cons sr rest ih =>
    rw [mkHandlerWriteLoop_cons] at h
    rw [List.length_cons]
    have hcons : ∀ {sr' out} {w : Walk}, x ∈ (Walk.cons node sr' out w).out →
        x.1 = node ∨ x ∈ w.out := by
      intro sr' out w hx
      rcases List.mem_append.mp hx with hx | hx
      · obtain ⟨o, -, rfl⟩ := List.mem_map.mp hx
        exact .inl rfl
      · exact .inr hx
    split_ifs at h
    · rcases hcons h with hx | hx
      · omega
      · exact absurd hx List.not_mem_nil
    · rcases hcons h with hx | hx
      · omega
      · have := ih hx
        omega
    · rcases hcons h with hx | hx
      · omega
      · exact absurd hx List.not_mem_nil

/-! ## one header for each request -/

/-- The headers written for the request at a position. -/
def headersOf (node : Nat) (out : List (Nat × Out)) : Nat :=
  out.countP fun o => o.1 == node && o.2.isHeader

/-- At most one header has been written for each request. -/
def OneHeader (b : Batch) : Prop := ∀ node, headersOf node b.out ≤ 1

/-- A request for the home directory of a user who does not exist: `mk_user_init` answers it,
and `mk_request_process` answers it again. -/
def ForUnknownUser (ctx : Ctx) (sr : SessionRequest) : Prop :=
  ∃ sr', mkRequestPlan ctx sr = .noHome sr' ∧ unknownUser ctx.sys sr' = true

/-- A request for a part of a file that `mk_http_range_set` refuses once the header is out. -/
def RefusedLate (ctx : Ctx) (sr : SessionRequest) : Prop :=
  ∃ sr', mkRequestPlan ctx sr = .send sr' ∧ lateRefusal ctx.cfg sr' = true

/-- What a write event processes is neither for an unknown user nor refused late, and nothing is
written for it when it has been answered before. -/
def AnswersOnce (cfg : Config) (cs : ClientSession) (b : Batch) (sys : Sys) : Prop :=
  Visits (fun ctx sr => sr.handledBy = false → sr.bytesToSend < 0 →
    (¬ ForUnknownUser ctx sr ∧ ¬ RefusedLate ctx sr) ∧
      (0 < headersOf ctx.node b.out → (mkRequestPlan ctx sr).headers ctx = 0)) cfg sys cs 0 0 b.list

/-- These are the answers with two headers. -/
theorem headers_le_one_iff {ctx : Ctx} {sr : SessionRequest} :
    (mkRequestPlan ctx sr).headers ctx ≤ 1 ↔ ¬ ForUnknownUser ctx sr ∧ ¬ RefusedLate ctx sr := by
  have htwo : ∀ b : Bool, 1 + b.toNat ≤ 1 ↔ b ≠ true := by decide
  have hone : ∀ b : Bool, b.toNat ≤ 1 := by decide
  unfold ForUnknownUser RefusedLate
  cases mkRequestPlan ctx sr with
  | noHome sr' => simp [Plan.headers, htwo]
  | send sr' => simp [Plan.headers, htwo]
  | error status sr' => simp [Plan.headers, hone]
  | refuse ret status sr' => simp [Plan.headers, hone]
  | silent ret sr' => simp [Plan.headers]
  | noData sr' => simp [Plan.headers]
  | redirect sr' => simp [Plan.headers]
  | notModified sr' => simp [Plan.headers]

theorem headersOf_append (node : Nat) (out out' : List (Nat × Out)) :
    headersOf node (out ++ out') = headersOf node out + headersOf node out' := List.countP_append

theorem headersOf_map (m node : Nat) (out : List Out) :
    headersOf m (out.map (node, ·)) = if m = node then headerCount out else 0 := by
  unfold headersOf headerCount
  rw [List.countP_map]
  split
  · next h =>
      subst h
      apply List.countP_congr
      simp
  · next h =>
      rw [List.countP_eq_zero]
      intro o _
      simp [Ne.symm h]

/-- Only a request that is processed gets a header. -/
theorem headerCount_mkHandlerWriteNode (ctx : Ctx) (finalStatus : Int) (sr : SessionRequest) :
    headerCount (mkHandlerWriteNode ctx finalStatus sr).out =
      if sr.handledBy = false ∧ sr.bytesToSend < 0 then (mkRequestPlan ctx sr).headers ctx else 0 := by
  unfold mkHandlerWriteNode
  by_cases hsend : sr.handledBy = false ∧ sr.bytesToSend > 0
  · rw [if_pos hsend, if_neg (by omega), headerCount_mkHttpSendFile]
  · rw [if_neg hsend]
    by_cases hprocess : sr.handledBy = false ∧ sr.bytesToSend < 0
    · rw [if_pos hprocess, if_pos hprocess, mkRequestProcess_eq, Res.after, headerCount_append,
        Plan.headerCount_run (mkRequestPlan_for ctx sr)]
      exact Nat.zero_add _
    · rw [if_neg hprocess, if_neg hprocess]
      rfl

/-- The headers of a walk: those of its first node, and of the rest when it goes
on. -/
theorem headersOf_mkHandlerWriteLoop_cons (cfg : Config) (sys : Sys) (cs : ClientSession)
    (m node : Nat) (finalStatus : Int) (sr : SessionRequest) (rest : List SessionRequest) :
    let r := mkHandlerWriteNode ⟨cfg, sys, cs, rest, node⟩ finalStatus sr
    headersOf m (mkHandlerWriteLoop cfg sys cs node finalStatus (sr :: rest)).out =
      (if m = node then headerCount r.out else 0) +
        if r.goesOn then headersOf m (mkHandlerWriteLoop cfg sys cs (node + 1) r.ret rest).out
        else 0 := by
  simp only
  rw [mkHandlerWriteLoop_cons]
  generalize mkHandlerWriteNode ⟨cfg, sys, cs, rest, node⟩ finalStatus sr = r
  have hstage : headerCount (r.out ++ [.stage40]) = headerCount r.out := by
    rw [headerCount_append]
    rfl
  by_cases hpos : r.ret > 0
  · rw [if_pos hpos, if_neg (fun h : r.goesOn => h.1 hpos)]
    simp [Walk.cons, headersOf_map]
  · rw [if_neg hpos]
    split
    · simp only [Walk.cons, headersOf_append, headersOf_map, hstage]
    · simp only [Walk.cons, List.append_nil, headersOf_map, hstage, Nat.add_zero]

/-- A walk writes nothing for the nodes before its first. -/
theorem headersOf_mkHandlerWriteLoop_lt {cfg : Config} {sys : Sys} {cs : ClientSession}
    {m node : Nat} {finalStatus : Int} {list : List SessionRequest} (hm : m < node) :
    headersOf m (mkHandlerWriteLoop cfg sys cs node finalStatus list).out = 0 := by
  induction list generalizing node finalStatus with
  | nil => rfl
  | cons sr rest ih =>
      rw [headersOf_mkHandlerWriteLoop_cons, if_neg (by omega), ih (by omega), ite_self]

/-- One walk after `base` headers: nobody gets a second header exactly when no
answer takes two and nobody is answered again. -/
theorem headersOf_walk_iff {cfg : Config} {sys : Sys} {cs : ClientSession} {base : Nat → Nat}
    (hbase : ∀ m, base m ≤ 1) {node : Nat} {finalStatus : Int} {list : List SessionRequest} :
    (∀ m, base m + headersOf m (mkHandlerWriteLoop cfg sys cs node finalStatus list).out ≤ 1) ↔
      Visits (fun ctx sr => sr.handledBy = false → sr.bytesToSend < 0 →
        (mkRequestPlan ctx sr).headers ctx ≤ 1 ∧
          (0 < base ctx.node → (mkRequestPlan ctx sr).headers ctx = 0))
        cfg sys cs node finalStatus list := by
  induction list generalizing node finalStatus with
  | nil => simpa [Visits, mkHandlerWriteLoop, headersOf] using hbase
  | cons sr rest ih =>
      have hnode := headerCount_mkHandlerWriteNode ⟨cfg, sys, cs, rest, node⟩ finalStatus sr
      have hcons := fun m =>
        headersOf_mkHandlerWriteLoop_cons cfg sys cs m node finalStatus sr rest
      simp only [Visits]
      generalize mkHandlerWriteNode ⟨cfg, sys, cs, rest, node⟩ finalStatus sr = r at hnode hcons ⊢
      have hlater := @headersOf_mkHandlerWriteLoop_lt cfg sys cs node (node + 1) r.ret rest
        (by omega)
      constructor
      · intro h
        refine ⟨?_, fun hgo => (@ih (node + 1) r.ret).mp fun m => ?_⟩
        · intro hhandled hbytes
          have hle := h node
          rw [hcons, if_pos rfl, hnode, if_pos ⟨hhandled, hbytes⟩] at hle
          constructor
          · omega
          · intro hpos
            omega
        · have hle := h m
          rw [hcons, if_pos hgo] at hle
          omega
      · rintro ⟨hhead, hrest⟩ m
        rw [hcons]
        have htail : base m + (if r.goesOn then
            headersOf m (mkHandlerWriteLoop cfg sys cs (node + 1) r.ret rest).out else 0) ≤ 1 := by
          split
          · next hgo => exact (@ih (node + 1) r.ret).mpr (hrest hgo) m
          · exact hbase m
        by_cases hm : m = node
        · subst hm
          rw [if_pos rfl, hlater, ite_self, hnode]
          have := hbase m
          split
          · next hprocess =>
              obtain ⟨hone, hzero⟩ := hhead hprocess.1 hprocess.2
              by_cases hpos : 0 < base m
              · have := hzero hpos
                omega
              · omega
          · omega
        · rw [if_neg hm]
          omega

/-- A run only adds to what has been written. -/
theorem Batch.headersOf_mono {cfg : Config} {cs : ClientSession} {b t : Batch} {syss : List Sys}
    (h : Run (Batch.Step cfg cs) b syss t) (node : Nat) :
    headersOf node b.out ≤ headersOf node t.out := by
  induction h with
  | nil b => exact le_rfl
  | cons hstep _ ih =>
      refine le_trans ?_ ih
      rw [hstep.eq.2, headersOf_append]
      exact Nat.le_add_right _ _

/-- One write event. -/
theorem Batch.Step.answersOnce_iff {cfg : Config} {cs : ClientSession} {b b' : Batch} {sys : Sys}
    (h : b.Step cfg cs sys b') (hb : OneHeader b) : OneHeader b' ↔ AnswersOnce cfg cs b sys := by
  simp only [AnswersOnce, ← headers_le_one_iff]
  rw [h.eq.2, ← headersOf_walk_iff hb, OneHeader]
  simp only [headersOf_append]
  rfl

/-- **One response header**: over every run of a batch, whatever files, ranges, user
directories, error pages and plugins its requests meet, at most one header is
written for each request if and only if no request processed takes two, and none
that has been answered is answered again. -/
theorem one_header_iff {cfg : Config} {cs : ClientSession} {list : List SessionRequest}
    {syss : List Sys} {t : Batch} (h : Run (Batch.Step cfg cs) (Batch.init list) syss t) :
    OneHeader t ↔
      Run (Guarded (AnswersOnce cfg cs) (Batch.Step cfg cs)) (Batch.init list) syss t := by
  have hinit : OneHeader (Batch.init list) := fun node => Nat.zero_le _
  generalize Batch.init list = b at h hinit
  constructor
  · intro hone
    induction h with
    | nil b => exact .nil b
    | cons hstep hrest ih =>
        have hnext := fun node => (Batch.headersOf_mono hrest node).trans (hone node)
        exact .cons ⟨(hstep.answersOnce_iff hinit).mp hnext, hstep⟩ (ih hnext hone)
  · intro hguarded
    have hstep : ∀ b sys b', OneHeader b → AnswersOnce cfg cs b sys →
        Batch.Step cfg cs b sys b' → OneHeader b' :=
      fun b sys b' hb hp hs => (hs.answersOnce_iff hb).mpr hp
    exact hguarded.guarded_invariant hstep hinit

theorem headersOf_le (node : Nat) (out : List (Nat × Out)) :
    headersOf node out ≤ headerCount (out.map (·.2)) := by
  unfold headersOf headerCount
  rw [List.countP_map]
  apply List.countP_mono_left
  simp

/-- The session that has received `body` in a round of its connection, its requests
parsed. -/
def parsedSession (round : Int) (body : Bytes) : ClientSession :=
  (mkRequestParse (mkHttpPendingRequest sampleConfig
    { sampleSession with counterConnections := round, body := body }).2).2

theorem parsedSession_fresh (round : Int) (body : Bytes) :
    ∀ sr ∈ (parsedSession round body).requestList, Fresh sr := by
  refine mkRequestParse_fresh ?_
  unfold mkHttpPendingRequest pendingData
  simp only
  repeat' split
  all_goals rfl

/-- A file sent in one write event. -/
theorem one_header_sampleRequest : ∃ t,
    Run (Guarded (AnswersOnce sampleConfig (parsedSession 0 sampleRequest))
      (Batch.Step sampleConfig (parsedSession 0 sampleRequest)))
      (Batch.init (parsedSession 0 sampleRequest).requestList) [sampleSys] t ∧ OneHeader t := by
  have hrun : Run (Batch.Step sampleConfig (parsedSession 0 sampleRequest))
      (Batch.init (parsedSession 0 sampleRequest).requestList) [sampleSys] _ :=
    Run.of_foldlM (f := Batch.write sampleConfig (parsedSession 0 sampleRequest)) rfl
  have hone := fun node => (headersOf_le node _).trans
    (show headerCount ((mkHandlerWriteList sampleConfig sampleSys (parsedSession 0 sampleRequest)
      (parsedSession 0 sampleRequest).requestList).out.map (·.2)) ≤ 1 by decide +kernel)
  exact ⟨_, (one_header_iff hrun).mp hone, hone⟩

/-- A server with user directories, and a request for the home of nobody. -/
def homeConfig : Config := { sampleConfig with userDir := some (ascii "public".toList) }

def homeRequest : Bytes := ascii "GET /~u/ HTTP/1.1\r\nHost: a\r\n\r\n".toList

/-- An unknown user is answered twice. -/
theorem unknown_user_two_headers :
    ¬ ∀ (cfg : Config) (cs : ClientSession) (list : List SessionRequest) (syss : List Sys)
      (t : Batch), Run (Batch.Step cfg cs) (Batch.init list) syss t → OneHeader t := by
  intro hall
  have htwice := hall homeConfig (parsedSession 0 homeRequest)
    (parsedSession 0 homeRequest).requestList [sampleSys] _
    (Run.of_foldlM (f := Batch.write homeConfig (parsedSession 0 homeRequest)) rfl) 0
  revert htwice
  decide +kernel

end Monkey
