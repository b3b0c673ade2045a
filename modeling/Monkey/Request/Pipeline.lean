import Monkey.Connection
import Monkey.Lib.Tokens
import Monkey.Request.Upload

/-!
# Monkey.Request.Pipeline

A keep-alive round whose buffer is a batch of requests, one behind the other.
`mk_request_parse` cuts the batch at its blank lines, one node for each request, and
hands it over unless it holds several requests and one of them is neither GET nor
HEAD; then none of them is answered.
-/

namespace Monkey

/-! ## the method of a block -/

theorem mkHttpMethodCheck_append {s : Bytes} (u : Bytes) {n : Nat} (h : n ≤ s.length) :
    mkHttpMethodCheck (s ++ u) n = mkHttpMethodCheck s n := by
  simp only [mkHttpMethodCheck, strncmp_append u _ h]

theorem mkHttpMethodGet_of_blank {s : Bytes} {k : Nat} (h : memchr s 0x20 7 = some k) :
    mkHttpMethodGet s = if k ≤ 2 ∨ k ≥ 7 then .unknown else mkHttpMethodCheck s k := by
  simp only [mkHttpMethodGet, mkStringCharSearch, Int.reduceLT, if_false, Int.reduceToNat, h,
    position, Option.elim_some, Int.ofNat_eq_natCast, Int.toNat_natCast]
  congr 1
  simp only [ge_iff_le, eq_iff_iff]
  omega

theorem mkHttpMethodGet_of_no_blank {s : Bytes} (h : memchr s 0x20 7 = none) :
    mkHttpMethodGet s = .unknown := by
  simp [mkHttpMethodGet, mkStringCharSearch, h, position]

/-- The method is read from the first seven bytes. -/
theorem mkHttpMethodGet_append {s : Bytes} (u : Bytes)
    (h : 7 ≤ s.length ∨ mkHttpMethodGet s ≠ .unknown) :
    mkHttpMethodGet (s ++ u) = mkHttpMethodGet s := by
  cases hblank : memchr s 0x20 7 with
  | none =>
      have hunknown := mkHttpMethodGet_of_no_blank hblank
      have hseven := h.resolve_right fun hne => hne hunknown
      rw [hunknown]
      apply mkHttpMethodGet_of_no_blank
      rw [← hblank, memchr, memchr, List.take_append_of_le_length hseven]
  | some k =>
      have hk : k < s.length := memchr_lt hblank
      rw [mkHttpMethodGet_of_blank hblank, mkHttpMethodGet_of_blank (memchr_append hblank u),
        mkHttpMethodCheck_append u hk.le]

/-! ## the method of a round -/

/-- The method recorded is that of the buffer, and it is recorded when the request is
complete. -/
structure MethodKept (s : Upload) : Prop where
  known : s.cs.firstMethod ≠ .unknown → s.cs.firstMethod = mkHttpMethodGet s.cs.body
  complete : s.pending = 0 → s.cs.firstMethod = mkHttpMethodGet s.cs.body

/-- More bytes do not change the method of the buffer. -/
theorem MethodKept.step {cfg : Config} {s s' : Upload} {count : Nat} (h : MethodKept s)
    (hstep : s.Step cfg count s') : MethodKept s' := by
  subst hstep
  have hgrown : s.cs.firstMethod ≠ .unknown →
      s.cs.firstMethod = mkHttpMethodGet (s.cs.body ++ s.stream.take count) := by
    intro hne
    have hknown := h.known hne
    rw [mkHttpMethodGet_append _ (.inr (hknown ▸ hne)), ← hknown]
  unfold Upload.read
  rcases mkHttpPendingRequest_spec cfg { s.cs with body := s.cs.body ++ s.stream.take count } with
    ⟨-, hwait⟩ | ⟨-, ret, status, hfound⟩
  · rw [hwait]
    exact ⟨hgrown, fun h0 => absurd h0 (by decide : (-1 : Int) ≠ 0)⟩
  · rw [hfound]
    have hmethod : (if s.cs.firstMethod = .unknown then
        mkHttpMethodGet (s.cs.body ++ s.stream.take count) else s.cs.firstMethod) =
        mkHttpMethodGet (s.cs.body ++ s.stream.take count) := by
      split
      · rfl
      · next hne => exact hgrown hne
    exact ⟨fun _ => hmethod, fun _ => hmethod⟩

/-! ## the batch -/

/-- A request of a batch: it holds no NUL, and its only blank line closes it. -/
structure IsPipelined (r : Bytes) : Prop where
  nul : 0 ∉ r
  length : 8 ≤ r.length
  ends : mkEndblock <:+ r
  only : ∀ q, mkEndblock <+: r.drop q → q + mkEndblock.length = r.length

/-- The methods `mk_request_parse` lets pass in a batch of several requests. -/
def Method.isPipelinable (m : Method) : Bool := m == .get || m == .head

/-- The method of a node is that of its request alone. -/
theorem map_mkHttpMethodGet_requestPointers {rs : List Bytes} (hrs : ∀ r ∈ rs, IsPipelined r) :
    (requestPointers rs).map (fun p => mkHttpMethodGet (p.data.getD [])) = rs.map mkHttpMethodGet := by
  induction rs with
  | nil => rfl
  | cons r rs ih =>
      have hlength := (hrs r List.mem_cons_self).length
      simp only [requestPointers, List.map_cons, Option.getD_some,
        mkHttpMethodGet_append rs.flatten (.inl (by omega : 7 ≤ r.length)),
        ih fun q hq => hrs q (List.mem_cons_of_mem r hq)]

/-- What `mk_request_parse` makes of the nodes of a round. -/
theorem mkRequestParse_nodes {cs : ClientSession} {nodes : List SessionRequest}
    (hempty : cs.requestList = [])
    (hloop : mkRequestParseLoop cs (cs.bodyPosEnd + 2).toNat 0 = some nodes) :
    (mkRequestParse cs).2.requestList = nodes ∧
      (mkRequestParse cs).1 =
        if nodes.length > 1 ∧ ∃ m ∈ nodes.map (·.method), m.isPipelinable = false then -1 else 0 := by
  have hall : (nodes.all fun sr => sr.method == .get || sr.method == .head) = true ↔
      ¬ ∃ m ∈ nodes.map (·.method), m.isPipelinable = false := by
    simp [Method.isPipelinable]
    grind
  unfold mkRequestParse
  simp only [hloop, hempty, List.nil_append]
  split
  · next hmany =>
      split
      · next hpass => exact ⟨rfl, (if_neg fun h => hall.mp hpass h.2).symm⟩
      · next hrefuse =>
          refine ⟨rfl, (if_pos ⟨hmany, ?_⟩).symm⟩
          by_contra hnone
          exact hrefuse (hall.mpr hnone)
  · next hfew => exact ⟨rfl, (if_neg fun h => hfew h.1).symm⟩

/-- A batch that is refused is not answered. -/
theorem mkHandlerWrite_refused (cfg : Config) (sys : Sys) {cs : ClientSession}
    (hempty : cs.requestList = []) (hret : (mkRequestParse cs).1 = -1) :
    (mkHandlerWrite cfg sys cs).1 = -1 ∧ (mkHandlerWrite cfg sys cs).2.2 = [] := by
  unfold mkHandlerWrite
  simp only [if_pos hempty, hret]
  rw [if_pos (by decide)]
  exact ⟨rfl, rfl⟩

/-- **Pipelining**: the batch a keep-alive round has received is cut into its requests, and
refused when it holds several requests and one of them is neither GET nor HEAD. -/
theorem request_parse_batch {cfg : Config} {cs : ClientSession} {stream : Bytes}
    {counts : List Nat} {s : Upload} {rs : List Bytes} (hlater : cs.counterConnections > 0)
    (hlist : cs.requestList = []) (hrun : Run (Upload.Step cfg) (Upload.init cs stream) counts s)
    (hpending : s.pending = 0) (hbody : s.cs.body = rs.flatten) (hne : rs ≠ [])
    (hrs : ∀ r ∈ rs, IsPipelined r)
    (hlast : s.cs.bodyPosEnd = (s.cs.bodyLength : Int) - mkEndblock.length)
    (hlen : s.cs.bodyLength < 2 ^ 31) :
    (mkRequestParse s.cs).2.requestList.map (·.body) = requestPointers rs ∧
      (mkRequestParse s.cs).2.requestList.map (·.body.text) = rs.map (frameHead mkEndblock) ∧
      (mkRequestParse s.cs).2.requestList.map (·.method) = rs.map mkHttpMethodGet ∧
      if rs.length > 1 ∧ ∃ r ∈ rs, (mkHttpMethodGet r).isPipelinable = false then
        (mkRequestParse s.cs).1 = -1 ∧ ∀ cfg sys,
          (mkHandlerWrite cfg sys s.cs).1 = -1 ∧ (mkHandlerWrite cfg sys s.cs).2.2 = []
      else (mkRequestParse s.cs).1 = 0 := by
  have hmethod : MethodKept s := hrun.invariant (fun _ _ _ hs hstep => hs.step hstep)
    ⟨fun hne => absurd rfl hne, fun h0 => absurd h0 (by decide : (-1 : Int) ≠ 0)⟩
  have hround : RoundKept cs s := hrun.invariant (fun _ _ _ hs hstep => hs.step hstep) ⟨rfl, rfl⟩
  have hempty : s.cs.requestList = [] := hround.list.trans hlist
  have h0 : 0 ∉ rs.flatten := by
    intro hmem
    obtain ⟨r, hr, hnul⟩ := List.mem_flatten.mp hmem
    exact (hrs r hr).nul hnul
  have hfuel : rs.length ≤ (s.cs.bodyPosEnd + 2).toNat := by
    have hcount : rs.length * 8 ≤ rs.flatten.length := by
      rw [List.length_flatten]
      calc rs.length * 8 = (rs.map fun _ => 8).sum := by simp
        _ ≤ (rs.map List.length).sum := List.sum_le_sum fun r hr => (hrs r hr).length
    have hpos := List.length_pos_iff.mpr hne
    simp only [ClientSession.bodyLength, hbody, mkEndblock, List.length_cons, List.length_nil] at hlast
    omega
  obtain ⟨nodes, hloop, hbodies, hmethods⟩ := @mkRequestParseLoop_pointers s.cs
    (hround.counter ▸ hlater) (hmethod.complete hpending) hlast (by omega) rs [] _
    (fun r hr => (hrs r hr).ends) (fun r hr => (hrs r hr).only) hbody h0 hfuel
  obtain ⟨hnodes, hret⟩ := mkRequestParse_nodes hempty hloop
  have hmap : nodes.map (·.method) = rs.map mkHttpMethodGet := by
    rw [← map_mkHttpMethodGet_requestPointers hrs, ← hbodies, List.map_map]
    exact List.map_congr_left hmethods
  have hcount : nodes.length = rs.length := by simpa using congrArg List.length hmap
  rw [hmap, hcount] at hret
  simp only [List.mem_map, exists_exists_and_eq_and] at hret
  refine ⟨by rw [hnodes, hbodies], ?_, by rw [hnodes, hmap], ?_⟩
  · rw [hnodes, ← requestPointers_text, ← hbodies, List.map_map]
    rfl
  · split
    · next hrefuse =>
        rw [if_pos hrefuse] at hret
        exact ⟨hret, fun cfg sys => mkHandlerWrite_refused cfg sys hempty hret⟩
    · next hpass => rw [hret, if_neg hpass]

/-- A GET with a POST behind it. -/
def mixedBatch : List Bytes := [sampleRequest, ascii "POST /a HTTP/1.1\r\n\r\n".toList]

theorem isPipelined_mixedBatch : ∀ r ∈ mixedBatch, IsPipelined r := by
  simp only [mixedBatch, List.mem_cons, List.not_mem_nil, or_false, forall_eq_or_imp, forall_eq]
  exact ⟨⟨by decide, by decide, by decide, fun _ hq => endblock_only (by decide) hq⟩,
    ⟨by decide, by decide, by decide, fun _ hq => endblock_only (by decide) hq⟩⟩

/-- The batch is cut in two and refused. -/
theorem request_parse_batch_mixed : ∃ s,
    Run (Upload.Step sampleConfig)
      (Upload.init { sampleSession with counterConnections := 1 } mixedBatch.flatten) [10, 100] s ∧
    (mkRequestParse s.cs).2.requestList.map (·.method) = [.get, .post] ∧
    (mkRequestParse s.cs).1 = -1 := by
  refine ⟨_, .cons rfl (.cons rfl (.nil _)), ?_⟩
  have hbatch := @request_parse_batch sampleConfig { sampleSession with counterConnections := 1 }
    mixedBatch.flatten [10, 100] _ mixedBatch (by decide) rfl (.cons rfl (.cons rfl (.nil _)))
    (by decide +kernel) (by decide +kernel) (by decide) isPipelined_mixedBatch (by decide +kernel)
    (by decide +kernel)
  have hmethods : mixedBatch.map mkHttpMethodGet = [.get, .post] := by decide
  have hmany : mixedBatch.length > 1 ∧ ∃ r ∈ mixedBatch, (mkHttpMethodGet r).isPipelinable = false := by
    decide
  rw [if_pos hmany, hmethods] at hbatch
  exact ⟨hbatch.2.2.1, hbatch.2.2.2.1⟩

end Monkey
