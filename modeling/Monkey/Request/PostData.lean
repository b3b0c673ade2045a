import Monkey.Http.Answer
import Monkey.Lib.Extent
import Monkey.Request.Pipeline
import Monkey.Request.SegmentsExact

/-!
# Monkey.Request.PostData

The data of a POST request.  `mk_request_parse` points `sr->data` at the bytes behind the
block it cuts off, up to the end of the buffer, before the content length is known.  So
the data is what the client has declared exactly when the buffer holds nothing behind it
and, in the first round of a session, the blank line found first is the one that ends the
header block.
-/

namespace Monkey

/-! ## the end of the header block -/

/-- A read that stops at a blank line, while none is known, stops at the first one. -/
def FirstEnd (s : Upload) (count : Nat) : Prop :=
  s.cs.bodyPosEnd < 0 → mkEndblock <:+ s.cs.body ++ s.stream.take count →
    findSub mkEndblock (s.cs.body ++ s.stream.take count) =
      some ((s.cs.body ++ s.stream.take count).length - mkEndblock.length)

instance (s : Upload) (count : Nat) : Decidable (FirstEnd s count) :=
  inferInstanceAs (Decidable (_ → _ → _))

/-- The blank line recorded is one of the buffer. -/
def EndRecorded (s : Upload) : Prop :=
  s.cs.bodyPosEnd = -1 ∨ ∃ p : Nat, s.cs.bodyPosEnd = p ∧ mkEndblock <+: s.cs.body.drop p

/-- The blank line recorded is the first. -/
def EndIsFirst (s : Upload) : Prop :=
  0 ≤ s.cs.bodyPosEnd → findSub mkEndblock s.cs.body = some s.cs.bodyPosEnd.toNat

section

variable {cfg : Config} {s s' : Upload} {count : Nat}

theorem prefix_drop_append {needle u : Bytes} {p : Nat} (h : needle <+: u.drop p) (hne : needle ≠ [])
    (w : Bytes) : needle <+: (u ++ w).drop p := by
  have hle := h.length_le
  have hpos := List.length_pos_iff.mpr hne
  rw [List.length_drop] at hle
  rw [List.drop_append_of_le_length (by omega)]
  exact h.trans (List.prefix_append _ _)

theorem EndRecorded.step (h : EndRecorded s) (hstep : s.Step cfg count s') : EndRecorded s' := by
  subst hstep
  have hkept : s.cs.bodyPosEnd = -1 ∨ ∃ p : Nat, s.cs.bodyPosEnd = p ∧
      mkEndblock <+: (s.cs.body ++ s.stream.take count).drop p := by
    rcases h with hnone | ⟨p, hp, hblank⟩
    · exact .inl hnone
    · exact .inr ⟨p, hp, prefix_drop_append hblank mkEndblock_ne_nil _⟩
  unfold EndRecorded
  rw [Upload.read_body, Upload.read_bodyPosEnd]
  split
  · next hpos =>
      exact @pendingPosEnd_cases { s.cs with body := s.cs.body ++ s.stream.take count } hkept hpos.1
  · exact hkept

/-- A read keeps the first blank line, or finds it, exactly if it stops well. -/
theorem EndRecorded.first_step (h : EndRecorded s) (hstep : s.Step cfg count s') :
    FirstEnd s count ∧ EndIsFirst s ↔ EndIsFirst s' := by
  subst hstep
  unfold FirstEnd EndIsFirst
  rw [Upload.read_body, Upload.read_bodyPosEnd]
  rcases h with hnone | ⟨p, hp, hblank⟩
  · rw [hnone]
    have hpend := @pendingPosEnd_eq { s.cs with body := s.cs.body ++ s.stream.take count } hnone
    simp only [ClientSession.bodyLength] at hpend
    generalize s.cs.body ++ s.stream.take count = got at hpend ⊢
    by_cases hlen : mkEndblock.length ≤ got.length
    · rw [hpend hlen]
      by_cases htail : mkEndblock <:+ got
      · rw [if_pos htail, if_pos ⟨hlen, by omega⟩]
        have hat : ((got.length : Int) - mkEndblock.length).toNat = got.length - mkEndblock.length := by
          omega
        simp only [htail, hat, hlen, Nat.cast_le, sub_nonneg, Int.reduceNeg, Int.reduceLT, forall_const]
        simp
      · rw [if_neg htail, mkStringSearch]
        cases hstr : strstr got mkEndblock with
        | none => simp [position, htail]
        | some q => simp [position, htail, hlen, findSub_of_strstr hstr mkEndblock_ne_nil]
    · have htail : ¬ mkEndblock <:+ got := fun hsuf => hlen hsuf.length_le
      rw [if_neg fun hpos => hlen hpos.1]
      simp [htail]
  · have hpend : pendingPosEnd { s.cs with body := s.cs.body ++ s.stream.take count } = p := by
      rw [pendingPosEnd, if_neg (by simp only [hp]; omega)]
      exact hp
    rw [hpend, hp, ite_self]
    simp only [Int.natCast_nonneg, forall_const, Int.toNat_natCast]
    constructor
    · rintro ⟨-, hfirst⟩
      exact findSub_append_of_some hfirst mkEndblock_ne_nil _
    · intro hfirst
      refine ⟨fun hneg => absurd hneg (by omega), ?_⟩
      have hle := hblank.length_le
      rw [List.length_drop, mkEndblock] at hle
      obtain ⟨q, hq, -⟩ := findSub_of_prefix_drop hblank (by simp at hle; omega)
      rw [hq, ← hfirst, findSub_append_of_some hq mkEndblock_ne_nil]

end

/-! ## the node of a POST request -/

/-- The first node of a round, if there is one. -/
theorem mkRequestParseLoop_head {cs : ClientSession} {nodes : List SessionRequest}
    (h : mkRequestParseLoop cs (cs.bodyPosEnd + 2).toNat 0 = some nodes) :
    nodes = [] ∨ ∃ (stop : Nat) (rest : List SessionRequest),
      nodes = requestNode cs 0 stop :: rest ∧
      if cs.counterConnections > 0 then strstr cs.body mkEndblock = some stop
      else cs.bodyPosEnd = stop := by
  cases hfuel : (cs.bodyPosEnd + 2).toNat with
  | zero =>
      rw [hfuel] at h
      exact .inl (Option.some.inj h).symm
  | succ fuel =>
      rw [hfuel, mkRequestParseLoop] at h
      split at h
      · simp only [Nat.cast_zero, List.drop_zero, add_zero] at h
        generalize hend : (if cs.counterConnections > 0 then mkStringSearch cs.body mkEndblock
          else cs.bodyPosEnd) = stop at h
        split at h
        · contradiction
        · next hpos =>
            obtain ⟨rest, -, hnodes⟩ := Option.map_eq_some_iff.mp h
            obtain ⟨stop, rfl⟩ := Int.eq_ofNat_of_zero_le (not_lt.mp hpos)
            refine .inr ⟨stop, rest, hnodes.symm, ?_⟩
            split
            · next hlater =>
                rw [if_pos hlater, mkStringSearch] at hend
                cases hstr : strstr cs.body mkEndblock with
                | none =>
                    rw [hstr] at hend
                    exact absurd hend (by simp [position])
                | some q =>
                    rw [hstr] at hend
                    exact congrArg some (Int.ofNat.inj hend)
            · next hfirst => rwa [if_neg hfirst] at hend
      · exact .inl (Option.some.inj h).symm

/-- A POST request that is handed over is the only one of its round. -/
theorem mkRequestParse_post {cs : ClientSession} {node : SessionRequest} (hempty : cs.requestList = [])
    (hparse : (mkRequestParse cs).1 = 0) (hnode : node ∈ (mkRequestParse cs).2.requestList)
    (hpost : node.method = .post) : ∃ stop : Nat, node = requestNode cs 0 stop ∧
      if cs.counterConnections > 0 then strstr cs.body mkEndblock = some stop
      else cs.bodyPosEnd = stop := by
  cases hloop : mkRequestParseLoop cs (cs.bodyPosEnd + 2).toNat 0 with
  | none =>
      rw [mkRequestParse, hloop] at hparse
      exact absurd hparse (by decide : (-1 : Int) ≠ 0)
  | some nodes =>
      obtain ⟨hlist, hret⟩ := mkRequestParse_nodes hempty hloop
      rw [hlist] at hnode
      have hfew : ¬ nodes.length > 1 := by
        intro hmany
        have hrefuse : ∃ m ∈ nodes.map (·.method), m.isPipelinable = false :=
          ⟨.post, hpost ▸ List.mem_map_of_mem hnode, rfl⟩
        rw [hparse, if_pos ⟨hmany, hrefuse⟩] at hret
        exact absurd hret (by decide)
      rcases mkRequestParseLoop_head hloop with rfl | ⟨stop, rest, rfl, hstop⟩
      · contradiction
      · obtain rfl : rest = [] := List.length_eq_zero_iff.mp (by rw [List.length_cons] at hfew; omega)
        exact ⟨stop, List.mem_singleton.mp hnode, hstop⟩

/-- What `mk_method_parse_data` has accepted. -/
theorem mkMethodParseData_accepted {ctx : Ctx} {sr : SessionRequest}
    (h : (mkMethodParseData ctx sr).ret = 0) :
    0 < mkMethodValidateContentLength ctx.cs.body ctx.cs.bodyLength ∧
      mkMethodValidateContentLength ctx.cs.body ctx.cs.bodyLength < ctx.cs.bodySize ∧
      (mkMethodParseData ctx sr).sr.data = sr.data ∧
      (mkMethodParseData ctx sr).sr.contentLength =
        toInt (mkMethodValidateContentLength ctx.cs.body ctx.cs.bodyLength) := by
  have hrefused : (-1 : Int) ≠ 0 := by decide
  unfold mkMethodParseData at h ⊢
  simp only at h ⊢
  split_ifs at h ⊢ with hnone hpos hlarge htype
  · exact absurd h hrefused
  · exact absurd h hrefused
  · exact absurd h hrefused
  · exact absurd h hrefused
  · exact ⟨not_le.mp hpos, not_le.mp hlarge, rfl, rfl⟩

/-! ## the data -/

/-- A POST request of a round that `mk_method_parse_data` accepts: `sr` is what a node of
the round has become when it is called. -/
structure AcceptedPost (cs : ClientSession) (ctx : Ctx) (sr : SessionRequest) : Prop where
  parsed : (mkRequestParse cs).1 = 0
  node : ∃ node ∈ (mkRequestParse cs).2.requestList, node.method = .post ∧ sr.data = node.data
  body : ctx.cs.body = cs.body
  accepted : (mkMethodParseData ctx sr).ret = 0

/-- The data of a request is what it declares, behind the first blank line. -/
def DataDeclared (body : Bytes) (sr : SessionRequest) : Prop :=
  ∃ p n : Nat, findSub mkEndblock body = some p ∧ sr.contentLength = n ∧
    p + mkEndblock.length + n ≤ body.length ∧
    sr.data = ⟨some (body.drop (p + mkEndblock.length)), n⟩

/-- The buffer ends with the declared number of bytes behind the first blank line. -/
def NoSurplus (body : Bytes) : Prop :=
  ∃ p : Nat, findSub mkEndblock body = some p ∧
    (body.length : Int) = p + mkEndblock.length + mkMethodValidateContentLength body body.length

/-- The data is all that is behind the block. -/
theorem requestNode_data {cs : ClientSession} {stop : Nat}
    (hpost : (requestNode cs 0 stop).method = .post)
    (hstop : stop + mkEndblock.length ≤ cs.bodyLength) (hlen : cs.bodyLength < 2 ^ 31) :
    (requestNode cs 0 stop).data = ⟨some (cs.body.drop (stop + mkEndblock.length)),
      cs.bodyLength - (stop + mkEndblock.length)⟩ := by
  have hsize : toULong (toInt ((cs.bodyLength : Int) - ((stop : Int) + mkEndblock.length))) =
      cs.bodyLength - (stop + mkEndblock.length) := by
    rw [toInt_eq_self (by omega) (by omega)]
    unfold toULong
    omega
  have hoffset : ((stop : Int) + mkEndblock.length).toNat = stop + mkEndblock.length := by omega
  simp only [requestNode] at hpost ⊢
  rw [if_pos hpost, hsize, hoffset]

/-- **Posted data**: the data of an accepted POST request is what it declares exactly when
nothing follows it in the buffer and, in the first round, the end of the header block was
found where it is. -/
theorem post_data_iff {cfg : Config} {cs : ClientSession} {stream : Bytes} {counts : List Nat}
    {s : Upload} {ctx : Ctx} {sr : SessionRequest} (hempty : cs.requestList = [])
    (hrun : Run (Upload.Step cfg) (Upload.init cs stream) counts s)
    (hlen : s.cs.bodyLength < 2 ^ 31) (hsize : ctx.cs.bodySize < 2 ^ 31)
    (hpost : AcceptedPost s.cs ctx sr) :
    DataDeclared s.cs.body (mkMethodParseData ctx sr).sr ↔
      NoSurplus s.cs.body ∧ (cs.counterConnections ≤ 0 →
        Run (Guarded FirstEnd (Upload.Step cfg)) (Upload.init cs stream) counts s) := by
  have hround : RoundKept cs s := hrun.invariant (fun _ _ _ hs hstep => hs.step hstep) ⟨rfl, rfl⟩
  have hrecorded : EndRecorded s :=
    hrun.invariant (fun _ _ _ hs hstep => hs.step hstep) (.inl rfl)
  have hguarded := hrun.guarded_and_iff (P := FirstEnd) (Q := EndIsFirst)
    (fun _ _ _ _ h₁ h₂ => h₁.trans h₂.symm) (fun _ _ _ hs hstep => EndRecorded.step hs hstep)
    (fun _ _ _ hs hstep => EndRecorded.first_step hs hstep) (.inl rfl)
  obtain ⟨node, hnode, hmethod, hdata⟩ := hpost.node
  obtain ⟨stop, rfl, hstop⟩ := mkRequestParse_post (hround.list.trans hempty) hpost.parsed hnode hmethod
  rw [hround.counter] at hstop
  have hinside : stop + mkEndblock.length ≤ s.cs.bodyLength := by
    split at hstop
    · exact strstr_end_le hstop mkEndblock_ne_nil
    · obtain ⟨p, hp, hblank⟩ := hrecorded.resolve_left (by omega)
      have hle := hblank.length_le
      rw [List.length_drop, mkEndblock] at hle
      simp only [ClientSession.bodyLength, mkEndblock, List.length_cons, List.length_nil] at hle ⊢
      omega
  have hfirst : findSub mkEndblock s.cs.body = some stop ↔ (cs.counterConnections ≤ 0 →
      Run (Guarded FirstEnd (Upload.Step cfg)) (Upload.init cs stream) counts s) := by
    split at hstop
    · next hlater =>
        exact iff_of_true (findSub_of_strstr hstop mkEndblock_ne_nil) fun hround => absurd hround (by omega)
    · next hround =>
        have hinit : EndIsFirst (Upload.init cs stream) := fun hneg => absurd hneg (by decide : ¬ (0 : Int) ≤ -1)
        have hlast : EndIsFirst s ↔ findSub mkEndblock s.cs.body = some stop := by
          unfold EndIsFirst
          rw [hstop, Int.toNat_natCast]
          exact ⟨fun h => h (by omega), fun h _ => h⟩
        rw [← hlast, ← hguarded, and_iff_left hinit, forall_prop_of_true (by omega)]
  obtain ⟨hpositive, hlarge, hkept, hlength⟩ := mkMethodParseData_accepted hpost.accepted
  rw [ClientSession.bodyLength, hpost.body] at hpositive hlarge hlength
  rw [toInt_eq_self (by omega) (by omega)] at hlength
  rw [← hfirst]
  unfold DataDeclared NoSurplus
  rw [hkept, hlength, hdata, requestNode_data hmethod hinside hlen]
  unfold ClientSession.bodyLength at hinside ⊢
  constructor
  · rintro ⟨p, n, hp, hn, hle, hsame⟩
    obtain ⟨hdrop, hcount⟩ := MkPointer.mk.inj hsame
    have hdropped := congrArg List.length (Option.some.inj hdrop)
    rw [List.length_drop, List.length_drop] at hdropped
    obtain rfl : p = stop := by omega
    exact ⟨⟨p, hp, by omega⟩, hp⟩
  · rintro ⟨⟨p, hp, htotal⟩, hstop'⟩
    obtain rfl : p = stop := Option.some.inj (hp.symm.trans hstop')
    refine ⟨p, s.cs.body.length - (p + mkEndblock.length), hp, by omega, by omega, rfl⟩

/-! ## bytes behind the data -/

def postHead : Bytes :=
  ascii "POST /a HTTP/1.1\r\nContent-Length: 8\r\nContent-Type: t\r\n\r\n".toList

/-- A first round that has received the header block and `data` in one read. -/
def postRound (data : Bytes) : Upload :=
  (Upload.init sampleSession (postHead ++ data)).read sampleConfig (postHead ++ data).length

/-- The request of a round when its header fields have been processed. -/
def postRequest (s : Upload) : SessionRequest :=
  (mkRequestHeaderProcess sampleConfig sampleSys ((mkRequestParse s.cs).2.requestList.headD {})).2

def postCtx (s : Upload) : Ctx := { sampleCtx with cs := (mkRequestParse s.cs).2 }

theorem acceptedPost_postRequest {s : Upload} (hparse : (mkRequestParse s.cs).1 = 0)
    (hmethods : (mkRequestParse s.cs).2.requestList.map (·.method) = [.post])
    (hbody : (postCtx s).cs.body = s.cs.body)
    (haccepted : (mkMethodParseData (postCtx s) (postRequest s)).ret = 0) :
    AcceptedPost s.cs (postCtx s) (postRequest s) := by
  refine ⟨hparse, ?_, hbody, haccepted⟩
  unfold postRequest
  generalize (mkRequestParse s.cs).2.requestList = nodes at hmethods ⊢
  obtain ⟨node, rest, rfl⟩ := List.exists_cons_of_ne_nil (l := nodes) (by rintro rfl; contradiction)
  obtain ⟨hmethod, -⟩ := List.cons.inj hmethods
  exact ⟨node, List.mem_cons_self, hmethod, mkRequestHeaderProcess_data _ _ _⟩

/-- What the parser and `mk_method_parse_data` make of a round. -/
def RoundAccepted (s : Upload) : Prop :=
  (s.cs.bodyLength < 2 ^ 31 ∧ (postCtx s).cs.bodySize < 2 ^ 31) ∧
    (mkRequestParse s.cs).1 = 0 ∧ (mkRequestParse s.cs).2.requestList.map (·.method) = [.post] ∧
      (postCtx s).cs.body = s.cs.body ∧ (mkMethodParseData (postCtx s) (postRequest s)).ret = 0

instance (s : Upload) : Decidable (RoundAccepted s) := inferInstanceAs (Decidable ((_ ∧ _) ∧ _ ∧ _ ∧ _ ∧ _))

/-- Eight bytes of data, and no more. -/
theorem post_data_eight : DataDeclared (postRound (ascii "01234567".toList)).cs.body
    (mkMethodParseData (postCtx (postRound (ascii "01234567".toList)))
      (postRequest (postRound (ascii "01234567".toList)))).sr := by
  have hstep : Upload.Step sampleConfig (Upload.init sampleSession (postHead ++ ascii "01234567".toList))
      (postHead ++ ascii "01234567".toList).length (postRound (ascii "01234567".toList)) := rfl
  obtain ⟨⟨hlen, hsize⟩, hparse, hmethods, hbody, haccepted⟩ : RoundAccepted (postRound (ascii "01234567".toList)) := by
    decide +kernel
  refine (@post_data_iff sampleConfig sampleSession _ [_] _ _ _ rfl (.cons hstep (.nil _)) hlen hsize
    (acceptedPost_postRequest hparse hmethods hbody haccepted)).mpr ⟨⟨52, ?_, ?_⟩, fun _ => ?_⟩
  · decide +kernel
  · decide +kernel
  · exact .cons ⟨by decide +kernel, hstep⟩ (.nil _)

/-- Bytes behind the declared ones are taken for data. -/
theorem not_post_data_declared : ¬ ∀ (cfg : Config) (cs : ClientSession) (stream : Bytes)
    (counts : List Nat) (s : Upload) (ctx : Ctx) (sr : SessionRequest), cs.requestList = [] →
    Run (Upload.Step cfg) (Upload.init cs stream) counts s → s.pending = 0 →
    s.cs.bodyLength < 2 ^ 31 → ctx.cs.bodySize < 2 ^ 31 → AcceptedPost s.cs ctx sr →
    DataDeclared s.cs.body (mkMethodParseData ctx sr).sr := by
  intro h
  obtain ⟨⟨⟨hlen, hsize⟩, hparse, hmethods, hbody, haccepted⟩, hcount, hdata⟩ :
      RoundAccepted (postRound (ascii "01234567GET".toList)) ∧
        (mkMethodParseData (postCtx (postRound (ascii "01234567GET".toList)))
          (postRequest (postRound (ascii "01234567GET".toList)))).sr.contentLength = 8 ∧
        (mkMethodParseData (postCtx (postRound (ascii "01234567GET".toList)))
          (postRequest (postRound (ascii "01234567GET".toList)))).sr.data.len = 11 := by
    decide +kernel
  have hdeclared := h sampleConfig sampleSession (postHead ++ ascii "01234567GET".toList) [_]
    (postRound (ascii "01234567GET".toList)) (postCtx _) (postRequest _) rfl (.cons rfl (.nil _))
    (by decide +kernel) hlen hsize (acceptedPost_postRequest hparse hmethods hbody haccepted)
  obtain ⟨p, n, -, hn, -, hsame⟩ := hdeclared
  have hlength : _ = n := congrArg MkPointer.len hsame
  rw [hcount] at hn
  rw [hdata] at hlength
  omega

end Monkey
