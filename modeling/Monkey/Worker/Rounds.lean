import Monkey.Worker.Outcome
import Monkey.Request.Batch

/-!
# Monkey.Worker.Rounds

The keep-alive rounds of one connection and the requests served in them.
`counter_connections` counts rounds: `mk_request_ka_next` raises it at the end of a
round, after `mk_http_keepalive_check` has compared it with `max_keep_alive_request`,
and a round serves the whole batch `mk_request_parse` has found in the buffer.  The
requests served therefore stay within the maximum in the runs whose rounds start
below it, with a single request each.
-/

namespace Monkey

/-! ## the events of a connection -/

/-- The session after a read event; `none` when it is removed. -/
def connRead (cfg : Config) (io : EventIo) (cs : ClientSession) : Option ClientSession :=
  match mkHandlerRead cfg io.reallocOk io.read cs with
  | .premature _ => none
  | .removed => none
  | .done _ cs =>
      match mkHttpPendingRequest cfg cs with
      | (pending, cs) =>
          if pending = 0 then some cs
          else if (cs.bodyLength : Int) + 1 ≥ cfg.maxRequestSize then none
          else some cs

/-- The session as `mk_handler_write` walks it: parsed at the start of a round. -/
def startRound (cs : ClientSession) : Int × ClientSession :=
  if cs.requestList = [] then mkRequestParse cs else (0, cs)

/-- The session after the walk of a write event. -/
def endWalk (cfg : Config) (now : Int) (cs : ClientSession) (walk : Walk) :
    Option ClientSession :=
  if walk.ret < 0 then none
  else if walk.ret = 0 then
    if mkHttpKeepaliveCheck cfg { cs with requestList := walk.list } walk.list < 0 then none
    else some (mkRequestKaNext now { cs with requestList := [] })
  else some { cs with requestList := walk.list }

/-- The session after a write event, and what was written, by position. -/
def connWrite (cfg : Config) (io : EventIo) (cs : ClientSession) :
    Option ClientSession × List (Nat × Out) :=
  match startRound cs with
  | (ret, cs) =>
      if ret ≠ 0 then (none, [])
      else
        let walk := mkHandlerWriteList cfg io.sys cs cs.requestList
        (endWalk cfg io.now cs walk, walk.out)

/-- A read event removes the session or updates it. -/
theorem mkConnReadSession_eq (cfg : Config) (io : EventIo) (cs : ClientSession) (w : Worker) :
    ∃ log, (mkConnReadSession cfg io cs w).2 =
      (connRead cfg io cs).elim (mkSessionRemove { w with log := log } cs.socket)
        { w with log := log }.setSession := by
  unfold mkConnReadSession connRead
  cases hread : mkHandlerRead cfg io.reallocOk io.read cs with
  | premature status => exact ⟨_, rfl⟩
  | removed => exact ⟨w.log, rfl⟩
  | done ret cs' =>
    refine ⟨w.log, ?_⟩
    have hsock : (mkHttpPendingRequest cfg cs').2.socket = cs.socket :=
      congrArg Prod.fst ((mkHttpPendingRequest_round cfg cs').trans (mkHandlerRead_done hread).2)
    simp only
    split_ifs
    · rfl
    · rw [hsock]
      rfl
    · rfl

/-- A write event removes the session or updates it. -/
theorem mkConnWriteSession_eq (cfg : Config) (io : EventIo) (cs : ClientSession) (w : Worker) :
    ∃ log, (mkConnWriteSession cfg io cs w).2 =
      (connWrite cfg io cs).1.elim (mkSessionRemove { w with log := log } cs.socket)
        { w with log := log }.setSession := by
  have hsock := mkHandlerWrite_socket cfg io.sys cs
  unfold mkConnWriteSession connWrite startRound
  unfold mkHandlerWrite at hsock ⊢
  simp only at hsock ⊢
  generalize (if cs.requestList = [] then mkRequestParse cs else (0, cs)) = parsed at hsock ⊢
  obtain ⟨ret, cs'⟩ := parsed
  by_cases hret : ret ≠ 0
  · simp only [if_pos hret] at hsock ⊢
    exact ⟨_, by rw [if_pos (by decide), hsock]; rfl⟩
  · simp only [if_neg hret] at hsock ⊢
    unfold endWalk mkHttpRequestEnd
    refine ⟨.wrote cs'.socket ((mkHandlerWriteList cfg io.sys cs' cs'.requestList).out.map (·.2)) ::
      w.log, ?_⟩
    rw [hsock]
    split_ifs
    all_goals rfl

/-! ## the requests served -/

/-- A read or a write event of the connection. -/
inductive ConnEvent
  | read (io : EventIo)
  | write (io : EventIo)

/-- A connection: its session (`none` once it is removed) and the requests processed
so far, each by its round and its position in the batch. -/
structure Client where
  cs : Option ClientSession
  served : Finset (Int × Nat)

/-- The requests of a round that a walk has processed. -/
def servedBy (round : Int) (out : List (Nat × Out)) : Finset (Int × Nat) :=
  ((out.filter fun x => x.2 = .process).map fun x => (round, x.1)).toFinset

/-- One event; there is none on a closed connection. -/
def Client.step (cfg : Config) (c : Client) (e : ConnEvent) : Option Client :=
  c.cs.map fun cs =>
    match e with
    | .read io => { c with cs := connRead cfg io cs }
    | .write io =>
        ⟨(connWrite cfg io cs).1,
          c.served ∪ servedBy cs.counterConnections (connWrite cfg io cs).2⟩

def Client.Step (cfg : Config) (c : Client) (e : ConnEvent) (c' : Client) : Prop :=
  c.step cfg e = some c'

/-- A new connection. -/
def Client.init (socket arriveTime : Int) : Client := ⟨some (mkSessionCreate socket arriveTime), ∅⟩

/-- A write event that starts a round does so below the maximum, and finds one request
in the buffer: its first blank line is the recorded end. -/
def SingleRound (cfg : Config) (c : Client) : ConnEvent → Prop
  | .read _ => True
  | .write _ => ∀ cs, c.cs = some cs → cs.requestList = [] →
      cs.counterConnections < cfg.maxKeepAliveRequest ∧
        (cs.counterConnections > 0 → mkStringSearch cs.body mkEndblock = cs.bodyPosEnd)

/-! ## one event -/

/-- One request in the buffer is one node. -/
theorem mkRequestParse_single {cs : ClientSession} (hlist : cs.requestList = [])
    (hone : cs.counterConnections > 0 → mkStringSearch cs.body mkEndblock = cs.bodyPosEnd) :
    (mkRequestParse cs).2.requestList.length ≤ 1 ∧
      (mkRequestParse cs).2.counterConnections = cs.counterConnections := by
  have hloop : ∀ fuel nodes, mkRequestParseLoop cs fuel 0 = some nodes → nodes.length ≤ 1 := by
    intro fuel nodes h
    cases fuel with
    | zero =>
      obtain rfl := Option.some.inj h
      exact Nat.zero_le _
    | succ fuel =>
      have hstop : (if cs.counterConnections > 0 then
          mkStringSearch (cs.body.drop 0) mkEndblock + (0 : Nat) else cs.bodyPosEnd) = cs.bodyPosEnd := by
        split
        · next hlater => simpa using hone hlater
        · rfl
      rw [mkRequestParseLoop] at h
      split at h
      · next hle =>
        simp only [hstop] at h
        rw [if_neg (by omega)] at h
        obtain ⟨rest, hrest, rfl⟩ := Option.map_eq_some_iff.mp h
        have hnil : rest = [] := by
          cases fuel with
          | zero => exact (Option.some.inj hrest).symm
          | succ fuel =>
            rw [mkRequestParseLoop, if_neg (by have : mkEndblock.length = 4 := rfl; omega)] at hrest
            exact (Option.some.inj hrest).symm
        rw [hnil]
        exact le_rfl
      · obtain rfl := Option.some.inj h
        exact Nat.zero_le _
  unfold mkRequestParse
  cases hnodes : mkRequestParseLoop cs (cs.bodyPosEnd + 2).toNat 0 with
  | none => simp [hlist]
  | some nodes =>
    have hle := hloop _ _ hnodes
    simp only [hlist, List.nil_append]
    rw [if_neg (by omega)]
    exact ⟨hle, rfl⟩

/-! ## the limit -/

/-- The requests served are the first of their rounds, these are below the maximum, and
so is a round that is still being served. -/
structure WithinLimit (cfg : Config) (c : Client) : Prop where
  served : ∀ x ∈ c.served, (0 ≤ x.1 ∧ x.1 < cfg.maxKeepAliveRequest) ∧ x.2 = 0
  session : ∀ cs, c.cs = some cs → 0 ≤ cs.counterConnections ∧ cs.requestList.length ≤ 1 ∧
    (cs.requestList ≠ [] → cs.counterConnections < cfg.maxKeepAliveRequest)

theorem connRead_round {cfg : Config} {io : EventIo} {cs cs' : ClientSession}
    (h : connRead cfg io cs = some cs') : cs'.round = cs.round := by
  unfold connRead at h
  split at h
  · contradiction
  · contradiction
  · next ret cs₁ hread =>
    have hround := (mkHttpPendingRequest_round cfg cs₁).trans (mkHandlerRead_done hread).2
    simp only at h
    split_ifs at h
    · exact Option.some.inj h ▸ hround
    · exact Option.some.inj h ▸ hround

/-- The session as it is walked. -/
theorem startRound_single {cfg : Config} {io : EventIo} {c : Client} {cs : ClientSession}
    (h : WithinLimit cfg c) (hcs : c.cs = some cs) (hsingle : SingleRound cfg c (.write io)) :
    (startRound cs).2.counterConnections = cs.counterConnections ∧
      (startRound cs).2.requestList.length ≤ 1 ∧
      cs.counterConnections < cfg.maxKeepAliveRequest := by
  obtain ⟨-, hlen, hlt⟩ := h.session cs hcs
  unfold startRound
  split
  · next hlist =>
    obtain ⟨hbelow, hone⟩ := hsingle cs hcs hlist
    obtain ⟨hle, hcounter⟩ := mkRequestParse_single hlist hone
    exact ⟨hcounter, hle, hbelow⟩
  · next hlist => exact ⟨rfl, hlen, hlt hlist⟩

/-- After the walk the session is closed, goes on with its round, or is in the next. -/
theorem endWalk_cases {cfg : Config} {now : Int} {cs cs' : ClientSession} {walk : Walk}
    (h : endWalk cfg now cs walk = some cs') :
    cs' = { cs with requestList := walk.list } ∨
      cs' = mkRequestKaNext now { cs with requestList := [] } := by
  unfold endWalk at h
  split_ifs at h
  · exact .inr (Option.some.inj h).symm
  · exact .inl (Option.some.inj h).symm

theorem WithinLimit.step {cfg : Config} {c c' : Client} {e : ConnEvent} (h : WithinLimit cfg c)
    (hsingle : SingleRound cfg c e) (hstep : c.Step cfg e c') : WithinLimit cfg c' := by
  obtain ⟨cs, hcs, rfl⟩ := Option.map_eq_some_iff.mp hstep
  obtain ⟨hnonneg, hlen, hlt⟩ := h.session cs hcs
  cases e with
  | read io =>
    refine ⟨h.served, fun cs' hcs' => ?_⟩
    obtain ⟨-, hrest⟩ := Prod.mk.inj (connRead_round hcs')
    obtain ⟨hlist, hcounter⟩ := Prod.mk.inj hrest
    rw [hlist, hcounter]
    exact ⟨hnonneg, hlen, hlt⟩
  | write io =>
    obtain ⟨hcounter, hone, hbelow⟩ := startRound_single h hcs hsingle
    simp only [connWrite]
    by_cases hret : (startRound cs).1 ≠ 0
    · rw [if_pos hret]
      refine ⟨fun x hx => ?_, fun cs' hcs' => absurd hcs' (Option.some_ne_none cs').symm⟩
      simpa [servedBy] using h.served x (by simpa [servedBy] using hx)
    · rw [if_neg hret]
      refine ⟨fun x hx => ?_, fun cs' hcs' => ?_⟩
      · rcases Finset.mem_union.mp hx with hx | hx
        · exact h.served x hx
        · obtain ⟨y, hy, rfl⟩ := List.mem_map.mp (List.mem_toFinset.mp hx)
          have hnode := mkHandlerWriteLoop_nodes (List.mem_of_mem_filter hy)
          exact ⟨⟨hnonneg, hbelow⟩, by simp only; omega⟩
      · rcases endWalk_cases hcs' with rfl | rfl
        · have hkept := mkHandlerWriteLoop_length cfg io.sys (startRound cs).2 0 0
            (startRound cs).2.requestList
          simp only [hcounter]
          exact ⟨hnonneg, hkept.trans_le hone, fun _ => hbelow⟩
        · simp only [mkRequestKaNext, hcounter]
          exact ⟨by omega, Nat.zero_le 1, fun hne => absurd rfl hne⟩

theorem WithinLimit.card_le {cfg : Config} {c : Client} (h : WithinLimit cfg c) :
    c.served.card ≤ cfg.maxKeepAliveRequest.toNat := by
  have hsub : c.served ⊆
      (Finset.range cfg.maxKeepAliveRequest.toNat).image fun r : Nat => ((r : Int), (0 : Nat)) := by
    intro x hx
    obtain ⟨⟨hnonneg, hlt⟩, hnode⟩ := h.served x hx
    refine Finset.mem_image.mpr ⟨x.1.toNat, Finset.mem_range.mpr (by omega), ?_⟩
    exact Prod.ext (Int.toNat_of_nonneg hnonneg) hnode.symm
  calc c.served.card ≤ _ := Finset.card_le_card hsub
    _ ≤ (Finset.range cfg.maxKeepAliveRequest.toNat).card := Finset.card_image_le
    _ = cfg.maxKeepAliveRequest.toNat := Finset.card_range _

/-- In every run whose rounds start below the maximum with a single request each, the
requests served stay within the maximum. -/
theorem requests_within_limit {cfg : Config} {socket arriveTime : Int} {es : List ConnEvent}
    {c : Client}
    (h : Run (Guarded (SingleRound cfg) (Client.Step cfg)) (Client.init socket arriveTime) es c) :
    c.served.card ≤ cfg.maxKeepAliveRequest.toNat := by
  have hinit : WithinLimit cfg (Client.init socket arriveTime) := by
    refine ⟨fun x hx => absurd hx (Finset.notMem_empty x), fun cs hcs => ?_⟩
    obtain rfl := Option.some.inj hcs
    exact ⟨le_rfl, Nat.zero_le 1, fun hne => absurd rfl hne⟩
  exact (h.guarded_invariant (fun _ _ _ hs hg hstep => hs.step hg hstep) hinit).card_le

/-- A read of one request and the write event that serves it. -/
def sampleRound : List ConnEvent :=
  [.read { now := 0, sys := sampleSys, read := .data sampleRequest },
    .write { now := 0, sys := sampleSys }]

def limitConfig : Config := { sampleConfig with maxKeepAliveRequest := 1 }

/-- One request on a connection that may serve one. -/
theorem requests_within_limit_one : ∃ c,
    Run (Guarded (SingleRound limitConfig) (Client.Step limitConfig)) (Client.init 5 0)
      sampleRound c ∧ c.served = { (0, 0) } ∧
    c.served.card ≤ limitConfig.maxKeepAliveRequest.toNat := by
  have hrun : ∃ c, Run (Guarded (SingleRound limitConfig) (Client.Step limitConfig))
      (Client.init 5 0) sampleRound c ∧ c.served = { (0, 0) } := by
    refine ⟨_, .cons ⟨trivial, rfl⟩ (.cons ⟨?_, rfl⟩ (.nil _)), by decide⟩
    intro cs hcs _
    obtain rfl := Option.some.inj hcs
    decide
  obtain ⟨c, hrun, hserved⟩ := hrun
  exact ⟨c, hrun, hserved, requests_within_limit hrun⟩

/-- The connection is kept after the request that reaches the maximum. -/
theorem one_request_too_many :
    ¬ ∀ (cfg : Config) (socket arriveTime : Int) (es : List ConnEvent) (c : Client),
      0 < cfg.maxKeepAliveRequest →
      Run (Client.Step cfg) (Client.init socket arriveTime) es c →
      c.served.card ≤ cfg.maxKeepAliveRequest.toNat := by
  intro h
  have hsome : ((sampleRound ++ sampleRound).foldlM (Client.step limitConfig)
      (Client.init 5 0)).map (·.served) = some { (0, 0), (1, 0) } := by decide
  obtain ⟨c, hc, hserved⟩ := Option.map_eq_some_iff.mp hsome
  have hcard := h limitConfig 5 0 _ c (by decide) (Run.of_foldlM hc)
  rw [hserved] at hcard
  exact absurd hcard (by decide)

end Monkey
