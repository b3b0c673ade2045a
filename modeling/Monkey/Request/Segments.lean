import Monkey.Lib.Run
import Monkey.Lib.Frames
import Monkey.Request.Read

/-!
# Monkey.Request.Segments

A client sends complete GET and HEAD requests on one keep-alive connection, and
the bytes reach `mk_handler_read` cut anywhere.  The request blocks that
`mk_request_parse` hands over are the requests, one block each, exactly when every
read that brings the end of a request stops at the end of a request
(`CleanRead`): the bytes after it are forgotten by `mk_request_ka_next`, and the
first round of a session takes all it has received for one block.
-/

namespace Monkey

/-! ## the connection -/

/-- A complete GET or HEAD request: its only blank line closes it. -/
structure IsRequest (r : Bytes) : Prop where
  method : ascii "GET ".toList <+: r ∨ ascii "HEAD ".toList <+: r
  ends : mkEndblock <:+ r
  only : ∀ q, mkEndblock <+: r.drop q → q + mkEndblock.length = r.length

/-- A read event: how many bytes have arrived at the socket at most, whether the
buffer can be reallocated, and the clock. -/
structure ReadEvent where
  arrived : Nat
  reallocOk : Bool := true
  now : Int := 0

/-- A connection that is kept alive: its session (`none` once it is closed), the
bytes not yet read from the socket, and the blocks handed to processing. -/
structure KeepAlive where
  cs : Option ClientSession
  stream : Bytes
  blocks : List Bytes

/-- What follows a read of `mk_conn_read`: when the request is complete, the write
events parse it, serve it and end the round. -/
def KeepAlive.serve (cfg : Config) (now : Int) (stream : Bytes) (blocks : List Bytes)
    (cs : ClientSession) : KeepAlive :=
  match mkHttpPendingRequest cfg cs with
  | (pending, cs) =>
      if pending = 0 then
        match mkRequestParse cs with
        | (ret, cs) =>
            if ret ≠ 0 then ⟨none, stream, blocks⟩
            else ⟨some (mkRequestKaNext now { cs with requestList := [] }), stream,
              blocks ++ cs.requestList.map (·.body.text)⟩
      else if (cs.bodyLength : Int) + 1 ≥ cfg.maxRequestSize then ⟨none, stream, blocks⟩
      else ⟨some cs, stream, blocks⟩

/-- One read event; there is none on a closed connection or without data. -/
def KeepAlive.read (cfg : Config) (s : KeepAlive) (e : ReadEvent) : Option KeepAlive :=
  match s.cs with
  | none => none
  | some cs =>
      match s.stream.take e.arrived with
      | [] => none
      | b :: bs =>
          match mkHandlerRead cfg e.reallocOk (.data (b :: bs)) cs with
          | .done ret cs => some (KeepAlive.serve cfg e.now (s.stream.drop ret.toNat) s.blocks cs)
          | _ => some ⟨none, s.stream, s.blocks⟩

/-- The step relation of the connection. -/
def KeepAlive.Step (cfg : Config) (s : KeepAlive) (e : ReadEvent) (s' : KeepAlive) : Prop :=
  s.read cfg e = some s'

/-- A new connection on which the requests `rs` are sent. -/
def KeepAlive.init (socket arriveTime : Int) (rs : List Bytes) : KeepAlive :=
  ⟨some (mkSessionCreate socket arriveTime), rs.flatten, []⟩

/-! ## the condition -/

/-- The buffer is full and may not grow. -/
def ClientSession.Full (cfg : Config) (reallocOk : Bool) (cs : ClientSession) : Prop :=
  cs.bodySize ≤ cs.bodyLength ∧
    ((cs.bodySize + mkRequestChunk : Int) ≥ cfg.maxRequestSize ∨
      (cs.bodyFixed = false ∧ reallocOk = false))

/-- The size of the buffer when `mk_socket_read` is called. -/
def ClientSession.grownSize (cs : ClientSession) : Nat :=
  if cs.bodySize ≤ cs.bodyLength then cs.bodySize + mkRequestChunk else cs.bodySize

/-- The bytes a read event brings. -/
def KeepAlive.chunk (s : KeepAlive) (e : ReadEvent) (cs : ClientSession) : Bytes :=
  (s.stream.take e.arrived).take (cs.grownSize - cs.bodyLength)

/-- A read that stops inside the request it continues, or at the end of a request.
In the first round this must be the request itself; in later ones several requests
may have arrived, and none of them holds a NUL. -/
def CleanRead (cfg : Config) (rs : List Bytes) (s : KeepAlive) (e : ReadEvent) : Prop :=
  ∀ cs, s.cs = some cs → ¬ cs.Full cfg e.reallocOk ∧
    (¬ mkEndblock <:+: cs.body ++ s.chunk e cs ∨
      ∃ k, cs.body ++ s.chunk e cs = ((rs.drop s.blocks.length).take k).flatten ∧
        if cs.counterConnections > 0 then 0 ∉ cs.body ++ s.chunk e cs else k = 1)

/-! ## one read -/

namespace IsRequest

theorem starts {r : Bytes} (h : IsRequest r) : ∃ c s, r = c :: s ∧ c ∉ mkEndblock := by
  rcases h.method with ⟨t, rfl⟩ | ⟨t, rfl⟩
  · exact ⟨0x47, ascii "ET ".toList ++ t, rfl, by decide⟩
  · exact ⟨0x48, ascii "EAD ".toList ++ t, rfl, by decide⟩

theorem isFrame {r : Bytes} (h : IsRequest r) : IsFrame mkEndblock r :=
  ⟨h.ends, h.only, h.starts⟩

theorem mkHttpMethodGet_append {r : Bytes} (h : IsRequest r) (rest : Bytes) :
    mkHttpMethodGet (r ++ rest) = .get ∨ mkHttpMethodGet (r ++ rest) = .head := by
  rcases h.method with ⟨t, rfl⟩ | ⟨t, rfl⟩
  · left
    rfl
  · right
    rfl

end IsRequest

theorem mkHandlerReadGrow_full {cfg : Config} {reallocOk : Bool} {cs : ClientSession}
    (h : cs.Full cfg reallocOk) : ∃ status, mkHandlerReadGrow cfg reallocOk cs = .error status := by
  obtain ⟨hsize, hgrow⟩ := h
  unfold mkHandlerReadGrow
  rw [if_pos (by omega)]
  simp only
  by_cases hmax : ((cs.bodySize + mkRequestChunk : Nat) : Int) ≥ cfg.maxRequestSize
  · exact ⟨_, by rw [if_pos hmax]⟩
  · obtain ⟨hfixed, hrealloc⟩ := hgrow.resolve_left (by push_cast at hmax; exact hmax)
    exact ⟨_, by rw [if_neg hmax, hfixed, if_neg (by decide), hrealloc, if_neg (by decide)]⟩

theorem mkHandlerReadGrow_ok {cfg : Config} {reallocOk : Bool} {cs : ClientSession}
    (h : ¬ cs.Full cfg reallocOk) : ∃ fixed, mkHandlerReadGrow cfg reallocOk cs =
      .ok { cs with bodyFixed := fixed, bodySize := cs.grownSize } := by
  unfold mkHandlerReadGrow ClientSession.grownSize
  by_cases hsize : cs.bodySize ≤ cs.bodyLength
  · obtain ⟨hmax, hrealloc⟩ := not_or.mp fun hg => h ⟨hsize, hg⟩
    rw [if_pos (by omega), if_pos hsize]
    simp only
    rw [if_neg (by push_cast; exact hmax)]
    cases hfixed : cs.bodyFixed with
    | true => exact ⟨false, by rw [if_pos rfl]⟩
    | false =>
        have hok : reallocOk = true := by simpa [hfixed] using hrealloc
        exact ⟨false, by rw [if_neg (by decide), if_pos hok, ← hfixed]⟩
  · exact ⟨cs.bodyFixed, by rw [if_neg (by omega), if_neg hsize]⟩

/-- The session after a read of `chunk`. -/
def ClientSession.received (cs : ClientSession) (fixed : Bool) (chunk : Bytes) : ClientSession :=
  { cs with bodyFixed := fixed, bodySize := cs.grownSize, body := cs.body ++ chunk }

/-- What a read event does: the connection is closed when the buffer is full, else
the bytes read are served. -/
theorem KeepAlive.step_cases {cfg : Config} {s s' : KeepAlive} {e : ReadEvent}
    {cs : ClientSession} (h : s.Step cfg e s') (hcs : s.cs = some cs)
    (hroom : cs.bodyLength ≤ cs.bodySize) :
    (cs.Full cfg e.reallocOk ∧ s' = ⟨none, s.stream, s.blocks⟩) ∨
      (¬ cs.Full cfg e.reallocOk ∧ s.chunk e cs ≠ [] ∧ ∃ fixed,
        s' = KeepAlive.serve cfg e.now (s.stream.drop (s.chunk e cs).length) s.blocks
          (cs.received fixed (s.chunk e cs))) := by
  unfold KeepAlive.Step KeepAlive.read at h
  rw [hcs] at h
  simp only at h
  split at h
  · contradiction
  · next b bs hbytes =>
      by_cases hfull : cs.Full cfg e.reallocOk
      · obtain ⟨status, hgrow⟩ := mkHandlerReadGrow_full hfull
        rw [mkHandlerRead, hgrow] at h
        exact .inl ⟨hfull, (Option.some.inj h).symm⟩
      · obtain ⟨fixed, hgrow⟩ := mkHandlerReadGrow_ok hfull
        have hpos : 0 < cs.grownSize - cs.bodyLength := by
          unfold ClientSession.grownSize
          have : 0 < mkRequestChunk := by decide
          split <;> omega
        obtain ⟨n, hn⟩ := Nat.exists_eq_add_of_lt hpos
        have hchunk : s.chunk e cs = b :: bs.take n := by
          rw [KeepAlive.chunk, hbytes, hn, zero_add, List.take_succ_cons]
        rw [mkHandlerRead, hgrow] at h
        have htake : (b :: bs).take (cs.grownSize - cs.bodyLength) = b :: bs.take n := by
          rw [hn, zero_add, List.take_succ_cons]
        refine .inr ⟨hfull, by rw [hchunk]; simp, fixed, ?_⟩
        simp only [ClientSession.bodyLength] at h htake
        rw [htake] at h
        rw [hchunk]
        exact (Option.some.inj h).symm

/-! ## when a request is complete -/

theorem mkEndblock_ne_nil : mkEndblock ≠ [] := by decide

theorem crlf_bytes {s : Bytes} {q : Nat} (h : mkCrlf <+: s.drop q) :
    s[q]? = some 0x0d ∧ s[q + 1]? = some 0x0a := by
  obtain ⟨t, ht⟩ := h
  have hfirst : s[q]? = (s.drop q)[0]? := by rw [List.getElem?_drop, Nat.add_zero]
  have hsecond : s[q + 1]? = (s.drop q)[1]? := by rw [List.getElem?_drop]
  rw [hfirst, hsecond, ← ht]
  exact ⟨rfl, rfl⟩

/-- The first line end behind a line without one. -/
theorem strstr_crlf_append {line : Bytes} (hline : ¬ mkCrlf <:+: line) (h0 : 0 ∉ line) (rest : Bytes) :
    strstr (line ++ (mkCrlf ++ rest)) mkCrlf = some line.length := by
  rw [strstr, cstr_append h0, cstr_append (by decide)]
  apply findSub_eq_some
  · rw [List.drop_left]
    exact List.prefix_append _ _
  · rw [List.length_append]
    omega
  · intro q hq hpre
    by_cases hend : q + 2 ≤ line.length
    · -- a line end inside the line
      have hinside : mkCrlf <+: line.drop q := by
        rw [List.drop_append_of_le_length hq.le] at hpre
        exact List.prefix_of_prefix_length_le hpre (List.prefix_append _ _)
          (by rw [List.length_drop]; exact Nat.le_sub_of_add_le' hend)
      exact hline (hinside.isInfix.trans (List.drop_suffix q line).isInfix)
    · -- the carriage return of the line end is no line feed
      have hlf := (crlf_bytes hpre).2
      rw [show q + 1 = line.length by omega, List.getElem?_append_right le_rfl, Nat.sub_self] at hlf
      have hsame : (0x0d : UInt8) = 0x0a := Option.some.inj hlf
      exact absurd hsame (by decide)

/-- Blank lines are looked for inside the bytes only. -/
theorem endblock_only {r : Bytes} {q : Nat} (h : ∀ q < r.length, mkEndblock <+: r.drop q →
    q + mkEndblock.length = r.length) (hq : mkEndblock <+: r.drop q) :
    q + mkEndblock.length = r.length := by
  by_cases hlt : q < r.length
  · exact h q hlt hq
  · rw [List.drop_of_length_le (by omega)] at hq
    exact absurd (List.prefix_nil.mp hq) mkEndblock_ne_nil

/-- The tail of the buffer is tried first, then the string search. -/
theorem pendingPosEnd_eq {cs : ClientSession} (hpos : cs.bodyPosEnd = -1)
    (hlen : mkEndblock.length ≤ cs.bodyLength) :
    pendingPosEnd cs = if mkEndblock <:+ cs.body then (cs.bodyLength : Int) - mkEndblock.length
      else mkStringSearch cs.body mkEndblock := by
  have htail : strncmp (cs.body.drop (cs.bodyLength - mkEndblock.length)) mkEndblock
      mkEndblock.length = true ↔ mkEndblock <:+ cs.body := by
    rw [strncmp_iff_isPrefix (by decide), List.suffix_iff_eq_drop]
    constructor
    · intro hpre
      exact hpre.eq_of_length (by rw [List.length_drop]; unfold ClientSession.bodyLength at *; omega)
    · intro heq
      exact heq ▸ List.prefix_rfl
  rw [pendingPosEnd, if_pos (by omega)]
  by_cases ht : mkEndblock <:+ cs.body
  · rw [if_pos ht, if_pos (htail.mpr ht)]
  · rw [if_neg ht, if_neg (fun h => ht (htail.mp h))]

/-- Without a blank line at the end of the buffer or in the string it starts with,
more data is expected. -/
theorem mkHttpPendingRequest_wait {cfg : Config} {cs : ClientSession}
    (hpos : cs.bodyPosEnd = -1) (htail : ¬ mkEndblock <:+ cs.body)
    (hstr : strstr cs.body mkEndblock = none) : mkHttpPendingRequest cfg cs = (-1, cs) := by
  unfold mkHttpPendingRequest
  split
  · next hlen =>
      simp only [pendingPosEnd_eq hpos hlen, if_neg htail, mkStringSearch, hstr]
      rw [if_pos (by decide)]
  · rfl

/-- A GET or HEAD request is complete with its blank line. -/
theorem mkHttpPendingRequest_done {cfg : Config} {cs : ClientSession} {p : Nat}
    (hmethod : mkHttpMethodGet cs.body = .get ∨ mkHttpMethodGet cs.body = .head)
    (hunknown : cs.firstMethod = .unknown) (hlen : mkEndblock.length ≤ cs.bodyLength)
    (hp : pendingPosEnd cs = p) :
    mkHttpPendingRequest cfg cs = (0, { cs with
      bodyPosEnd := p, firstMethod := mkHttpMethodGet cs.body, status := .completed }) := by
  unfold mkHttpPendingRequest
  rw [if_pos hlen]
  simp only [hp, hunknown, if_true]
  rw [if_neg (by omega), if_neg (by rcases hmethod with h | h <;> rw [h] <;> decide)]

/-- Posted data changes the status only. -/
theorem pendingData_cases (cfg : Config) (cs : ClientSession) :
    ∃ ret status, pendingData cfg cs = (ret, { cs with status := status }) := by
  unfold pendingData
  simp only
  split
  · split
    · exact ⟨_, cs.status, rfl⟩
    · split
      · split
        · exact ⟨_, _, rfl⟩
        · exact ⟨_, cs.status, rfl⟩
      · split
        · exact ⟨_, cs.status, rfl⟩
        · exact ⟨_, _, rfl⟩
  · exact ⟨_, cs.status, rfl⟩

/-! ## the blocks of a round -/

theorem requestNode_text (cs : ClientSession) {i stop : Nat} (hle : i ≤ stop)
    (hlt : stop < 2 ^ 64) :
    (requestNode cs i stop).body.text = (cs.body.drop i).take (stop - i) := by
  have hlen : toULong ((stop : Int) - i) = stop - i := by
    unfold toULong
    omega
  simp only [requestNode, MkPointer.text, hlen, Option.getD_some]

/-- In the first round of a session everything up to the last blank line is one
block. -/
theorem mkRequestParseLoop_first {cs : ClientSession} {p : Nat} (hfirst : ¬ cs.counterConnections > 0)
    (hp : cs.bodyPosEnd = p) :
    mkRequestParseLoop cs (cs.bodyPosEnd + 2).toNat 0 = some [requestNode cs 0 p] := by
  have hfuel : (cs.bodyPosEnd + 2).toNat = p + 1 + 1 := by omega
  rw [hfuel, mkRequestParseLoop, if_pos (by omega)]
  simp only [if_neg hfirst, hp]
  rw [if_neg (by omega), mkRequestParseLoop, if_neg (by rw [hp]; simp [mkEndblock])]
  rfl

/-- In a later round a block ends where the search says. -/
theorem mkRequestParseLoop_block {cs : ClientSession} {fuel i q : Nat}
    (hlater : cs.counterConnections > 0) (hi : (i : Int) ≤ cs.bodyPosEnd)
    (hq : strstr (cs.body.drop i) mkEndblock = some q) :
    mkRequestParseLoop cs (fuel + 1) i =
      (mkRequestParseLoop cs fuel (i + q + mkEndblock.length)).map
        (requestNode cs i (i + q : Nat) :: ·) := by
  have hstop : mkStringSearch (cs.body.drop i) mkEndblock + i = ((i + q : Nat) : Int) := by
    rw [mkStringSearch, hq]
    simp only [position, Option.elim_some, Int.ofNat_eq_natCast]
    omega
  rw [mkRequestParseLoop, if_pos hi]
  simp only [if_pos hlater, hstop]
  rw [if_neg (by omega)]
  rfl

/-- Where the requests of a buffer stand, without their blank lines. -/
def requestPointers : List Bytes → List MkPointer
  | [] => []
  | r :: rs => ⟨some (r ++ rs.flatten), r.length - mkEndblock.length⟩ :: requestPointers rs

theorem requestPointers_text (rs : List Bytes) :
    (requestPointers rs).map MkPointer.text = rs.map (frameHead mkEndblock) := by
  induction rs with
  | nil => rfl
  | cons r rs ih =>
      simp only [requestPointers, List.map_cons, ih, MkPointer.text, Option.getD_some, frameHead,
        List.take_append_of_le_length (Nat.sub_le _ _)]

theorem mem_requestPointers {rs : List Bytes} {p : MkPointer} (h : p ∈ requestPointers rs) :
    ∃ r ∈ rs, ∃ rest, p.data = some (r ++ rest) := by
  induction rs with
  | nil => contradiction
  | cons r rs ih =>
      rcases List.mem_cons.mp h with rfl | hmem
      · exact ⟨r, List.mem_cons_self, _, rfl⟩
      · obtain ⟨q, hq, hdata⟩ := ih hmem
        exact ⟨q, List.mem_cons_of_mem r hq, hdata⟩

/-- In a later round a buffer of whole requests is cut into these requests. -/
theorem mkRequestParseLoop_pointers {cs : ClientSession} (hlater : cs.counterConnections > 0)
    (hmethod : cs.firstMethod = mkHttpMethodGet cs.body)
    (hp : cs.bodyPosEnd = (cs.bodyLength : Int) - mkEndblock.length)
    (hlt : cs.bodyLength < 2 ^ 64) {qs : List Bytes} {pre : Bytes} {fuel : Nat}
    (hends : ∀ r ∈ qs, mkEndblock <:+ r)
    (honly : ∀ r ∈ qs, ∀ q, mkEndblock <+: r.drop q → q + mkEndblock.length = r.length)
    (hbody : cs.body = pre ++ qs.flatten) (h0 : 0 ∉ qs.flatten) (hfuel : qs.length ≤ fuel) :
    ∃ nodes, mkRequestParseLoop cs fuel pre.length = some nodes ∧
      nodes.map (·.body) = requestPointers qs ∧
      ∀ sr ∈ nodes, sr.method = mkHttpMethodGet (sr.body.data.getD []) := by
  induction qs generalizing pre fuel with
  | nil =>
      refine ⟨[], ?_, rfl, by simp⟩
      have hlen : cs.bodyLength = pre.length := by simp [ClientSession.bodyLength, hbody]
      cases fuel with
      | zero => rfl
      | succ fuel =>
          rw [mkRequestParseLoop, if_neg (by rw [hp, hlen]; simp [mkEndblock])]
  | cons q qs ih =>
      have hqlen := (hends q List.mem_cons_self).length_le
      have hlen : cs.bodyLength = pre.length + (q.length + qs.flatten.length) := by
        simp [ClientSession.bodyLength, hbody]
      have hdrop : cs.body.drop pre.length = q ++ qs.flatten := by simp [hbody]
      have hsearch : strstr (cs.body.drop pre.length) mkEndblock =
          some (q.length - mkEndblock.length) := by
        rw [hdrop, strstr, cstr_eq_self (by simpa using h0),
          findSub_append_of_only (hends q List.mem_cons_self) (honly q List.mem_cons_self)]
      obtain ⟨fuel, rfl⟩ := Nat.exists_eq_add_of_le' hfuel
      obtain ⟨nodes, hloop, hbodies, hmethods⟩ := @ih (pre ++ q) (fuel + qs.length)
        (fun r hr => hends r (List.mem_cons_of_mem q hr))
        (fun r hr => honly r (List.mem_cons_of_mem q hr)) (by simp [hbody])
        (fun h => h0 (by simp [h])) (by omega)
      refine ⟨requestNode cs pre.length
        ((pre.length + (q.length - mkEndblock.length) : Nat) : Int) :: nodes, ?_, ?_, ?_⟩
      · rw [List.length_cons, ← add_assoc,
          mkRequestParseLoop_block hlater (by rw [hp]; omega) hsearch,
          show pre.length + (q.length - mkEndblock.length) + mkEndblock.length =
            (pre ++ q).length by rw [List.length_append]; omega, hloop]
        rfl
      · have hsize : toULong (((pre.length + (q.length - mkEndblock.length) : Nat) : Int) -
            pre.length) = q.length - mkEndblock.length := by
          unfold toULong
          omega
        simp only [List.map_cons, hbodies, requestPointers, requestNode, hdrop, hsize]
      · intro sr hsr
        rcases List.mem_cons.mp hsr with rfl | hsr
        · simp only [requestNode, Option.getD_some]
          split
          · next h0 => rw [hmethod, h0, List.drop_zero]
          · rfl
        · exact hmethods sr hsr

/-- The blocks of such a round when all requests are GET or HEAD. -/
theorem mkRequestParseLoop_requests {cs : ClientSession} (hlater : cs.counterConnections > 0)
    (hmethod : cs.firstMethod = mkHttpMethodGet cs.body)
    (hp : cs.bodyPosEnd = (cs.bodyLength : Int) - mkEndblock.length)
    (hlt : cs.bodyLength < 2 ^ 64) {qs : List Bytes} {fuel : Nat} (hqs : ∀ r ∈ qs, IsRequest r)
    (hbody : cs.body = qs.flatten) (h0 : 0 ∉ qs.flatten) (hfuel : qs.length ≤ fuel) :
    ∃ nodes, mkRequestParseLoop cs fuel 0 = some nodes ∧
      nodes.map (·.body.text) = qs.map (frameHead mkEndblock) ∧
      ∀ sr ∈ nodes, sr.method = .get ∨ sr.method = .head := by
  obtain ⟨nodes, hloop, hbodies, hmethods⟩ := @mkRequestParseLoop_pointers cs hlater hmethod hp hlt
    qs [] fuel (fun r hr => (hqs r hr).ends) (fun r hr => (hqs r hr).only) hbody h0 hfuel
  refine ⟨nodes, hloop, ?_, fun sr hsr => ?_⟩
  · rw [← requestPointers_text, ← hbodies, List.map_map]
    rfl
  · have hmem : sr.body ∈ requestPointers qs := hbodies ▸ List.mem_map_of_mem hsr
    obtain ⟨r, hr, rest, hdata⟩ := mem_requestPointers hmem
    rw [hmethods sr hsr, hdata, Option.getD_some]
    exact (hqs r hr).mkHttpMethodGet_append rest

/-- A round whose blocks are all GET or HEAD is handed over. -/
theorem mkRequestParse_ok {cs : ClientSession} {nodes : List SessionRequest}
    (hempty : cs.requestList = [])
    (hloop : mkRequestParseLoop cs (cs.bodyPosEnd + 2).toNat 0 = some nodes)
    (hmethods : ∀ sr ∈ nodes, sr.method = .get ∨ sr.method = .head) :
    ∃ b, mkRequestParse cs = (0, { cs with requestList := nodes, pipelined := b }) := by
  unfold mkRequestParse
  simp only [hloop, hempty, List.nil_append]
  have hall : (nodes.all fun sr => sr.method == .get || sr.method == .head) = true := by
    simpa using hmethods
  by_cases hn : nodes.length > 1
  · exact ⟨true, by rw [if_pos hn, if_pos hall]⟩
  · exact ⟨cs.pipelined, by rw [if_neg hn]⟩

/-! ## clean reads keep the requests apart -/

/-- A session between two reads of a round. -/
structure Receiving (cs : ClientSession) : Prop where
  posEnd : cs.bodyPosEnd = -1
  method : cs.firstMethod = .unknown
  list : cs.requestList = []
  room : cs.bodyLength ≤ cs.bodySize
  size : 0 < cs.bodySize

/-- The blocks handed over are the first requests, and the buffer starts with the
next one. -/
structure Aligned (rs : List Bytes) (s : KeepAlive) (cs : ClientSession) : Prop extends
    Receiving cs where
  session : s.cs = some cs
  blocks : s.blocks = (rs.take s.blocks.length).map (frameHead mkEndblock)
  stream : cs.body ++ s.stream = (rs.drop s.blocks.length).flatten

/-- The buffer holds a part of the next request only. -/
structure Synced (rs : List Bytes) (s : KeepAlive) (cs : ClientSession) : Prop extends
    Aligned rs s cs where
  inside : ¬ mkEndblock <:+: cs.body

theorem synced_init (socket arriveTime : Int) (rs : List Bytes) :
    Synced rs (KeepAlive.init socket arriveTime rs) (mkSessionCreate socket arriveTime) := by
  refine ⟨⟨⟨rfl, rfl, rfl, Nat.zero_le _, Nat.zero_lt_succ _⟩, rfl, rfl, rfl⟩, ?_⟩
  simp [mkSessionCreate, mkEndblock]

theorem KeepAlive.chunk_append (s : KeepAlive) (e : ReadEvent) (cs : ClientSession) :
    s.chunk e cs ++ s.stream.drop (s.chunk e cs).length = s.stream :=
  List.prefix_iff_eq_append.mp ((List.take_prefix _ _).trans (List.take_prefix _ _))

/-- What is read fits into the buffer. -/
theorem received_bodyLength_le {cs : ClientSession} (hroom : cs.bodyLength ≤ cs.bodySize)
    (s : KeepAlive) (e : ReadEvent) (fixed : Bool) :
    (cs.received fixed (s.chunk e cs)).bodyLength ≤
      (cs.received fixed (s.chunk e cs)).bodySize := by
  have hsize : cs.bodySize ≤ cs.grownSize := by
    unfold ClientSession.grownSize
    split <;> omega
  have hle : (s.chunk e cs).length ≤ cs.grownSize - cs.bodyLength := by
    rw [KeepAlive.chunk, List.length_take]
    exact Nat.min_le_left _ _
  simp only [ClientSession.bodyLength, ClientSession.received, List.length_append] at *
  omega

theorem Receiving.received {cs : ClientSession} (h : Receiving cs) (s : KeepAlive)
    (e : ReadEvent) (fixed : Bool) : Receiving (cs.received fixed (s.chunk e cs)) := by
  refine ⟨h.posEnd, h.method, h.list, received_bodyLength_le h.room s e fixed, ?_⟩
  have hsize := h.size
  simp only [ClientSession.received, ClientSession.grownSize]
  split <;> omega

theorem isInfix_of_strstr {s needle : Bytes} {p : Nat} (h : strstr s needle = some p) :
    needle <:+: s := by
  obtain ⟨t, ht⟩ := findSub_sound h
  have hcstr : needle <:+: cstr s :=
    ⟨(cstr s).take p, t, by rw [List.append_assoc, ht, List.take_append_drop]⟩
  exact hcstr.trans (List.takeWhile_prefix _).isInfix

/-- A read that leaves the request incomplete. -/
theorem KeepAlive.serve_wait {cfg : Config} {now : Int} {stream : Bytes} {blocks : List Bytes}
    {cs : ClientSession} (h : Receiving cs) (htail : ¬ mkEndblock <:+ cs.body)
    (hstr : strstr cs.body mkEndblock = none) (hmax : (cs.bodyLength : Int) + 1 < cfg.maxRequestSize) :
    KeepAlive.serve cfg now stream blocks cs = ⟨some cs, stream, blocks⟩ := by
  rw [KeepAlive.serve, mkHttpPendingRequest_wait h.posEnd htail hstr]
  simp only
  rw [if_neg (by decide), if_neg (by omega)]

/-- The session `mk_request_parse` is called on. -/
def ClientSession.completed (cs : ClientSession) (p : Nat) : ClientSession :=
  { cs with bodyPosEnd := p, firstMethod := mkHttpMethodGet cs.body, status := .completed }

/-- A read that completes a request ends the round. -/
theorem KeepAlive.serve_done {cfg : Config} {now : Int} {stream : Bytes} {blocks : List Bytes}
    {cs : ClientSession} {p : Nat} (h : Receiving cs)
    (hmethod : mkHttpMethodGet cs.body = .get ∨ mkHttpMethodGet cs.body = .head)
    (hlen : mkEndblock.length ≤ cs.bodyLength) (hp : pendingPosEnd cs = p) :
    KeepAlive.serve cfg now stream blocks cs =
      if (mkRequestParse (cs.completed p)).1 ≠ 0 then ⟨none, stream, blocks⟩
      else ⟨some (mkRequestKaNext now
          { (mkRequestParse (cs.completed p)).2 with requestList := [] }), stream,
        blocks ++ (mkRequestParse (cs.completed p)).2.requestList.map (·.body.text)⟩ := by
  rw [KeepAlive.serve, mkHttpPendingRequest_done hmethod h.method hlen hp]
  simp only [if_true]
  rfl

/-- A buffer of whole requests gives one block for each. -/
theorem mkRequestParse_whole {cs : ClientSession} {qs : List Bytes} {p : Nat} (h : Receiving cs)
    (hqs : ∀ r ∈ qs, IsRequest r) (hne : qs ≠ []) (hbody : cs.body = qs.flatten)
    (hlt : cs.bodyLength < 2 ^ 64) (hp : p + mkEndblock.length = cs.bodyLength)
    (hcond : if cs.counterConnections > 0 then 0 ∉ cs.body else qs.length = 1) :
    ∃ nodes b, mkRequestParse (cs.completed p) =
        (0, { cs.completed p with requestList := nodes, pipelined := b }) ∧
      nodes.map (·.body.text) = qs.map (frameHead mkEndblock) := by
  have hloop : ∃ nodes, mkRequestParseLoop (cs.completed p)
        ((cs.completed p).bodyPosEnd + 2).toNat 0 = some nodes ∧
      nodes.map (·.body.text) = qs.map (frameHead mkEndblock) ∧
      ∀ sr ∈ nodes, sr.method = .get ∨ sr.method = .head := by
    by_cases hlater : cs.counterConnections > 0
    · rw [if_pos hlater] at hcond
      refine @mkRequestParseLoop_requests (cs.completed p) hlater rfl ?_ hlt qs _ hqs hbody
        (hbody ▸ hcond) ?_
      · simp only [ClientSession.completed, ClientSession.bodyLength] at hp ⊢
        omega
      · have hcount := IsFrame.length_mul_le fun r hr => (hqs r hr).isFrame
        have hpos := List.length_pos_iff.mpr hne
        rw [← hbody] at hcount
        simp only [ClientSession.completed, ClientSession.bodyLength, mkEndblock,
          List.length_cons, List.length_nil] at hp hcount ⊢
        omega
    · rw [if_neg hlater] at hcond
      obtain ⟨q, rfl⟩ := List.length_eq_one_iff.mp hcond
      have hq := hqs q (by simp)
      have hbody' : cs.body = q := by simpa using hbody
      refine ⟨_, mkRequestParseLoop_first hlater rfl, ?_, ?_⟩
      · have htext := requestNode_text (cs.completed p) (Nat.zero_le p) (by omega)
        simp only [List.map_cons, List.map_nil, frameHead]
        rw [← hbody', show cs.body.length - mkEndblock.length = p by
          unfold ClientSession.bodyLength at hp; omega]
        exact congrArg (· :: []) htext
      · have hget := hq.mkHttpMethodGet_append []
        rw [List.append_nil, ← hbody'] at hget
        simpa [requestNode, ClientSession.completed] using hget
  obtain ⟨nodes, hloop, htext, hmethods⟩ := hloop
  obtain ⟨b, hparse⟩ := @mkRequestParse_ok (cs.completed p) nodes h.list hloop hmethods
  exact ⟨nodes, b, hparse, htext⟩

section

variable {cfg : Config} {rs : List Bytes} {s s' : KeepAlive} {e : ReadEvent} {cs : ClientSession}

/-- The bytes received in this round and those still to come. -/
theorem Aligned.received_append (h : Aligned rs s cs) (e : ReadEvent) :
    (cs.body ++ s.chunk e cs) ++ s.stream.drop (s.chunk e cs).length =
      (rs.drop s.blocks.length).flatten := by
  rw [List.append_assoc, s.chunk_append, h.stream]

theorem length_flatten_drop_le (rs : List Bytes) (k : Nat) :
    (rs.drop k).flatten.length ≤ rs.flatten.length := by
  conv_rhs => rw [← List.take_append_drop k rs, List.flatten_append, List.length_append]
  omega

/-- A round that is not complete is shorter than all that is sent. -/
theorem Aligned.received_lt (hrs : ∀ r ∈ rs, IsRequest r) (h : Aligned rs s cs)
    (hne : s.chunk e cs ≠ []) (htail : ¬ mkEndblock <:+ cs.body ++ s.chunk e cs) :
    (cs.body ++ s.chunk e cs).length < rs.flatten.length := by
  have happ := h.received_append e
  have hle := length_flatten_drop_le rs s.blocks.length
  have hrest : s.stream.drop (s.chunk e cs).length ≠ [] := by
    intro hnil
    rw [hnil, List.append_nil] at happ
    apply htail
    rw [happ]
    apply IsFrame.flatten_ends fun r hr => (hrs r (List.mem_of_mem_drop hr)).isFrame
    intro hnil
    rw [hnil] at happ
    simp [hne] at happ
  have := List.length_pos_iff.mpr hrest
  have := congrArg List.length happ
  rw [List.length_append] at this
  omega

/-- A clean read inside a request. -/
theorem Synced.wait (hrs : ∀ r ∈ rs, IsRequest r)
    (htotal : (rs.flatten.length : Int) < cfg.maxRequestSize) (h : Synced rs s cs)
    (hne : s.chunk e cs ≠ []) (hnone : ¬ mkEndblock <:+: cs.body ++ s.chunk e cs) (fixed : Bool) :
    Synced rs (KeepAlive.serve cfg e.now (s.stream.drop (s.chunk e cs).length) s.blocks
      (cs.received fixed (s.chunk e cs))) (cs.received fixed (s.chunk e cs)) := by
  have hlt := h.received_lt hrs hne fun ht => hnone ht.isInfix
  have hstr : strstr (cs.body ++ s.chunk e cs) mkEndblock = none := by
    cases hs : strstr (cs.body ++ s.chunk e cs) mkEndblock with
    | none => rfl
    | some p => exact absurd (isInfix_of_strstr hs) hnone
  have hrecv := h.toReceiving.received s e fixed
  rw [KeepAlive.serve_wait hrecv (fun ht => hnone ht.isInfix) hstr
    (by simp only [ClientSession.bodyLength, ClientSession.received]; omega)]
  exact ⟨⟨hrecv, rfl, h.blocks, h.received_append e⟩, hnone⟩

/-- A clean read that ends at the end of a request. -/
theorem Synced.round (hrs : ∀ r ∈ rs, IsRequest r) (hlt : rs.flatten.length < 2 ^ 64)
    (h : Synced rs s cs) (hne : s.chunk e cs ≠ []) {qs ts : List Bytes}
    (hsplit : rs.drop s.blocks.length = qs ++ ts) (hk : cs.body ++ s.chunk e cs = qs.flatten)
    (hcond : if cs.counterConnections > 0 then 0 ∉ cs.body ++ s.chunk e cs else qs.length = 1)
    (fixed : Bool) :
    ∃ cs', Synced rs (KeepAlive.serve cfg e.now (s.stream.drop (s.chunk e cs).length) s.blocks
      (cs.received fixed (s.chunk e cs))) cs' := by
  have hrecv := h.toReceiving.received s e fixed
  have hreq : ∀ r ∈ qs, IsRequest r := fun r hr =>
    hrs r (List.mem_of_mem_drop (hsplit ▸ List.mem_append_left _ hr))
  have hqne : qs ≠ [] := by
    rintro rfl
    simp [hne] at hk
  have happ := h.received_append e
  have hlen : (cs.body ++ s.chunk e cs).length ≤ rs.flatten.length := by
    have := length_flatten_drop_le rs s.blocks.length
    rw [← happ, List.length_append] at this
    omega
  have htail : mkEndblock <:+ (cs.received fixed (s.chunk e cs)).body := by
    rw [show (cs.received fixed (s.chunk e cs)).body = qs.flatten from hk]
    exact IsFrame.flatten_ends (fun r hr => (hreq r hr).isFrame) hqne
  obtain ⟨p, hp⟩ := Nat.exists_eq_add_of_le' htail.length_le
  have hmethod : mkHttpMethodGet (cs.body ++ s.chunk e cs) = .get ∨
      mkHttpMethodGet (cs.body ++ s.chunk e cs) = .head := by
    rw [hk]
    obtain ⟨q, qs', rfl⟩ := List.exists_cons_of_ne_nil hqne
    exact (hreq q (by simp)).mkHttpMethodGet_append qs'.flatten
  have hposEnd : pendingPosEnd (cs.received fixed (s.chunk e cs)) = p := by
    rw [pendingPosEnd_eq hrecv.posEnd htail.length_le, if_pos htail]
    unfold ClientSession.bodyLength
    omega
  obtain ⟨nodes, b, hparse, htext⟩ := @mkRequestParse_whole (cs.received fixed (s.chunk e cs)) qs p
    hrecv hreq hqne hk (lt_of_le_of_lt hlen hlt) hp.symm hcond
  rw [KeepAlive.serve_done hrecv hmethod htail.length_le hposEnd, hparse]
  simp only [ne_eq, not_true_eq_false, if_false, htext]
  have hrest : rs.drop (s.blocks.length + qs.length) = ts := by
    rw [← List.drop_drop, hsplit, List.drop_left]
  refine ⟨_, ⟨⟨rfl, rfl, rfl, Nat.zero_le _, ?_⟩, rfl, ?_, ?_⟩, ?_⟩
  · exact hrecv.size
  · simp only [List.length_append, List.length_map]
    rw [List.take_add, hsplit, List.take_left, List.map_append, ← h.blocks]
  · simp only [List.length_append, List.length_map, hrest, mkRequestKaNext, List.nil_append]
    rw [hk, hsplit, List.flatten_append] at happ
    exact List.append_cancel_left happ
  · simp [mkRequestKaNext, mkEndblock]

/-- A clean read keeps the requests apart. -/
theorem Synced.step (hrs : ∀ r ∈ rs, IsRequest r)
    (htotal : (rs.flatten.length : Int) < cfg.maxRequestSize) (hmax : cfg.maxRequestSize < 2 ^ 31)
    (h : Synced rs s cs) (hclean : CleanRead cfg rs s e) (hstep : s.Step cfg e s') :
    ∃ cs', Synced rs s' cs' := by
  obtain ⟨hfull, hread⟩ := hclean cs h.session
  rcases KeepAlive.step_cases hstep h.session h.room with ⟨hfull', _⟩ | ⟨_, hne, fixed, rfl⟩
  · exact absurd hfull' hfull
  · rcases hread with hnone | ⟨k, hk, hcond⟩
    · exact ⟨_, h.wait hrs htotal hne hnone fixed⟩
    · refine h.round hrs (by omega) hne (List.take_append_drop k _).symm hk ?_ fixed
      split at hcond
      · next hlater => rwa [if_pos hlater]
      · next hfirst =>
          rw [if_neg hfirst]
          subst hcond
          apply le_antisymm (List.length_take_le _ _)
          apply List.length_pos_iff.mpr
          intro hnil
          rw [hnil] at hk
          simp [hne] at hk

end

end Monkey
