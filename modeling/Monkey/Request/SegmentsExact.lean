import Monkey.Request.Segments

/-!
# Monkey.Request.SegmentsExact

A read that is not clean loses bytes for good, so the blocks of the connection are
the requests sent on it only if every read was clean.  The measure is the number of
bytes the blocks account for (`framedLength`): a session never hands over more
than it has received, and after an unclean read it hands over less, or a block
with a blank line inside.
-/

namespace Monkey

/-! ## what a round can hand over -/

/-- A session in the middle of a round, whatever it has received. -/
structure Buffered (cs : ClientSession) : Prop where
  posEnd : cs.bodyPosEnd = -1 ∨
    ∃ p : Nat, cs.bodyPosEnd = p ∧ mkEndblock <+: cs.body.drop p
  list : cs.requestList = []
  room : cs.bodyLength ≤ cs.bodySize

theorem Receiving.buffered {cs : ClientSession} (h : Receiving cs) : Buffered cs :=
  ⟨.inl h.posEnd, h.list, h.room⟩

/-- A blank line recorded is a blank line of the buffer. -/
theorem pendingPosEnd_cases {cs : ClientSession}
    (h : cs.bodyPosEnd = -1 ∨ ∃ p : Nat, cs.bodyPosEnd = p ∧ mkEndblock <+: cs.body.drop p)
    (hlen : mkEndblock.length ≤ cs.bodyLength) :
    pendingPosEnd cs = -1 ∨
      ∃ p : Nat, pendingPosEnd cs = p ∧ mkEndblock <+: cs.body.drop p := by
  rcases h with hpos | ⟨p, hpos, hp⟩
  · rw [pendingPosEnd_eq hpos hlen]
    by_cases htail : mkEndblock <:+ cs.body
    · rw [if_pos htail]
      refine .inr ⟨cs.bodyLength - mkEndblock.length, by omega, ?_⟩
      exact (List.suffix_iff_eq_drop.mp htail) ▸ List.prefix_rfl
    · rw [if_neg htail, mkStringSearch]
      cases hs : strstr cs.body mkEndblock with
      | none => exact .inl rfl
      | some p => exact .inr ⟨p, rfl, isPrefix_drop_of_strstr hs⟩
  · exact .inr ⟨p, by rw [pendingPosEnd, if_neg (by omega), hpos], hp⟩

/-- A request is found complete, or not, with its blank line recorded. -/
theorem mkHttpPendingRequest_cases {cfg : Config} {cs : ClientSession} (h : Buffered cs) :
    mkHttpPendingRequest cfg cs = (-1, cs) ∨
      ∃ ret, ∃ p : Nat, ∃ method status, mkEndblock <+: cs.body.drop p ∧
        mkHttpPendingRequest cfg cs =
          (ret, { cs with bodyPosEnd := p, firstMethod := method, status := status }) := by
  unfold mkHttpPendingRequest
  by_cases hlen : cs.bodyLength ≥ mkEndblock.length
  · rw [if_pos hlen]
    simp only
    rcases pendingPosEnd_cases h.posEnd hlen with hpos | ⟨p, hpos, hp⟩
    · rw [hpos, if_pos (by decide)]
      exact .inl rfl
    · rw [hpos, if_neg (by omega)]
      generalize (if cs.firstMethod = .unknown then mkHttpMethodGet cs.body
        else cs.firstMethod) = method
      split
      · obtain ⟨ret, status, hdata⟩ :=
          pendingData_cases cfg { cs with bodyPosEnd := p, firstMethod := method }
        exact .inr ⟨ret, p, method, status, hp, hdata⟩
      · exact .inr ⟨0, p, method, .completed, hp, rfl⟩
  · rw [if_neg hlen]
    exact .inl rfl

theorem requestNode_text_past (cs : ClientSession) {i : Nat} (hi : 0 < i)
    (hlt : cs.bodyLength < 2 ^ 64) :
    (requestNode cs i (-1 + i)).body.text = cs.body.drop i := by
  have hlen : toULong ((-1 + i : Int) - i) = 2 ^ 64 - 1 := by
    rw [show (-1 + i : Int) - i = -1 by ring]
    decide
  simp only [requestNode, MkPointer.text, hlen, Option.getD_some]
  apply List.take_of_length_le
  rw [List.length_drop]
  unfold ClientSession.bodyLength at hlt
  omega

/-- No NUL lies in the rest of a blank line. -/
theorem zero_notMem_endblock {body : Bytes} {p i : Nat} (hp : mkEndblock <+: body.drop p)
    (hpi : p < i) (hi : i ≤ p + mkEndblock.length) :
    0 ∉ (body.drop i).take (p + mkEndblock.length - i) := by
  intro hmem
  obtain ⟨t, ht⟩ := hp
  have heq : body.drop i = mkEndblock.drop (i - p) ++ t := by
    rw [← List.drop_append_of_le_length (by omega), ht, List.drop_drop]
    congr 1
    omega
  rw [heq, List.take_left' (by rw [List.length_drop]; omega)] at hmem
  exact absurd (List.mem_of_mem_drop hmem) (by decide)

/-- Whatever the buffer holds, the blocks of a later round account for no more
bytes than there are up to the recorded blank line, and these hold no NUL; else
some block has a blank line inside. -/
theorem mkRequestParseLoop_bound {cs : ClientSession} {p : Nat}
    (hlater : cs.counterConnections > 0) (hpos : cs.bodyPosEnd = p)
    (hp : mkEndblock <+: cs.body.drop p) (hlt : cs.bodyLength < 2 ^ 64) {fuel i : Nat}
    {nodes : List SessionRequest} (hloop : mkRequestParseLoop cs fuel i = some nodes)
    (hi : i ≤ p + mkEndblock.length) (hfuel : p + 1 ≤ fuel + i) :
    (∃ b ∈ nodes.map (·.body.text), mkEndblock <:+: b) ∨
      (framedLength mkEndblock (nodes.map (·.body.text)) + i ≤ p + mkEndblock.length ∧
        0 ∉ (cs.body.drop i).take (p + mkEndblock.length - i)) := by
  have hend : mkEndblock.length = 4 := rfl
  have hplen := hp.length_le
  rw [List.length_drop] at hplen
  induction fuel generalizing i nodes with
  | zero =>
      obtain rfl : nodes = [] := (Option.some.inj hloop).symm
      exact .inr ⟨by simpa [framedLength] using hi, zero_notMem_endblock hp (by omega) hi⟩
  | succ fuel ih =>
      by_cases hle : (i : Int) ≤ cs.bodyPosEnd
      · have hdrop : (cs.body.drop i).drop (p - i) = cs.body.drop p := by
          rw [List.drop_drop]
          congr 1
          omega
        cases hs : strstr (cs.body.drop i) mkEndblock with
        | none =>
            -- the string from `i` on ends before its blank line
            rw [mkRequestParseLoop, if_pos hle] at hloop
            simp only [if_pos hlater, mkStringSearch, hs, position, Option.elim_none] at hloop
            by_cases hi0 : i = 0
            · rw [hi0, if_pos (by decide)] at hloop
              contradiction
            · rw [if_neg (by omega)] at hloop
              obtain ⟨nodes', _, rfl⟩ := Option.map_eq_some_iff.mp hloop
              refine .inl ⟨cs.body.drop i, ?_, ?_⟩
              · rw [List.map_cons, requestNode_text_past cs (by omega) hlt]
                exact List.mem_cons_self
              · exact (hdrop ▸ hp).isInfix.trans (List.drop_suffix _ _).isInfix
        | some q =>
            have hq : q ≤ p - i := strstr_le hs (by rwa [hdrop])
            rw [mkRequestParseLoop_block hlater hle hs] at hloop
            obtain ⟨nodes', hloop', rfl⟩ := Option.map_eq_some_iff.mp hloop
            rw [Nat.add_assoc] at hloop'
            have hstop' : i + q < 2 ^ 64 := by
              unfold ClientSession.bodyLength at hlt
              omega
            rw [List.map_cons, requestNode_text cs (Nat.le_add_right i q) hstop',
              Nat.add_sub_cancel_left]
            rcases ih hloop' (by omega) (by omega) with
              ⟨b, hb, hbad⟩ | ⟨hlen, h0⟩
            · exact .inl ⟨b, List.mem_cons_of_mem _ hb, hbad⟩
            · refine .inr ⟨?_, ?_⟩
              · simp only [framedLength, List.map_cons, List.sum_cons, List.length_take,
                  List.length_drop] at hlen ⊢
                omega
              · have hsplit : p + mkEndblock.length - i = (q + mkEndblock.length) +
                    (p + mkEndblock.length - (i + (q + mkEndblock.length))) := by omega
                rw [hsplit, List.take_add, List.drop_drop, List.mem_append, not_or]
                exact ⟨strstr_no_nul hs mkEndblock_ne_nil, h0⟩
      · rw [mkRequestParseLoop, if_neg hle] at hloop
        obtain rfl : nodes = [] := (Option.some.inj hloop).symm
        exact .inr ⟨by simpa [framedLength] using hi, zero_notMem_endblock hp (by omega) hi⟩

/-- The same for a whole round. -/
theorem mkRequestParse_bound {cs : ClientSession} {p : Nat} (hlist : cs.requestList = [])
    (hpos : cs.bodyPosEnd = p) (hp : mkEndblock <+: cs.body.drop p) (hlt : cs.bodyLength < 2 ^ 64)
    (hret : (mkRequestParse cs).1 = 0) :
    (∃ b ∈ (mkRequestParse cs).2.requestList.map (·.body.text), mkEndblock <:+: b) ∨
      (framedLength mkEndblock ((mkRequestParse cs).2.requestList.map (·.body.text)) ≤
          p + mkEndblock.length ∧
        (cs.counterConnections > 0 → 0 ∉ cs.body.take (p + mkEndblock.length))) := by
  have hplen := hp.length_le
  rw [List.length_drop, show mkEndblock.length = 4 from rfl] at hplen
  cases hloop : mkRequestParseLoop cs (cs.bodyPosEnd + 2).toNat 0 with
  | none =>
      simp only [mkRequestParse, hloop] at hret
      contradiction
  | some nodes =>
      have hnodes : (mkRequestParse cs).2.requestList = nodes := by
        simp only [mkRequestParse, hloop, hlist, List.nil_append]
        split
        · split <;> rfl
        · rfl
      rw [hnodes]
      by_cases hlater : cs.counterConnections > 0
      · rcases mkRequestParseLoop_bound hlater hpos hp hlt hloop (Nat.zero_le _) (by omega) with
          hbad | ⟨hlen, h0⟩
        · exact .inl hbad
        · exact .inr ⟨hlen, fun _ => by simpa using h0⟩
      · rw [mkRequestParseLoop_first hlater hpos] at hloop
        obtain rfl := Option.some.inj hloop
        refine .inr ⟨?_, fun h => absurd h hlater⟩
        rw [List.map_singleton, requestNode_text cs (Nat.zero_le p)
          (by unfold ClientSession.bodyLength at hlt; omega)]
        simp [framedLength]

/-- The bytes in the buffer of the session. -/
def KeepAlive.held (s : KeepAlive) : Nat := s.cs.elim 0 ClientSession.bodyLength

/-- The blocks `extra` account for at most `n` bytes, or one has a blank line
inside. -/
def AtMost (extra : List Bytes) (n : Nat) : Prop :=
  (∃ b ∈ extra, mkEndblock <:+: b) ∨ framedLength mkEndblock extra ≤ n

/-- Serving never hands over more than was received. -/
theorem KeepAlive.serve_bound {cfg : Config} {now : Int} {stream : Bytes} {blocks : List Bytes}
    {cs : ClientSession} (h : Buffered cs) (hlt : cs.bodyLength < 2 ^ 64) :
    ∃ extra, AtMost extra
        (cs.bodyLength - (KeepAlive.serve cfg now stream blocks cs).held) ∧
      (KeepAlive.serve cfg now stream blocks cs).held ≤ cs.bodyLength ∧
      (KeepAlive.serve cfg now stream blocks cs).blocks = blocks ++ extra ∧
      (KeepAlive.serve cfg now stream blocks cs).stream = stream ∧
      ∀ cs', (KeepAlive.serve cfg now stream blocks cs).cs = some cs' → Buffered cs' := by
  have hclosed : AtMost [] cs.bodyLength := .inr (Nat.zero_le _)
  have hwait : AtMost [] 0 := .inr (Nat.zero_le _)
  rcases @mkHttpPendingRequest_cases cfg cs h with hpend | ⟨ret, p, method, status, hp, hpend⟩
  · unfold KeepAlive.serve
    rw [hpend]
    simp only
    rw [if_neg (by decide)]
    split
    · exact ⟨[], hclosed, Nat.zero_le _, by simp, rfl, by simp⟩
    · refine ⟨[], ?_, le_rfl, by simp, rfl, ?_⟩
      · simpa [KeepAlive.held] using hwait
      · rintro cs' ⟨⟩
        exact h
  · obtain ⟨cs₁, hcs₁⟩ : ∃ cs₁, cs₁ =
        { cs with bodyPosEnd := p, firstMethod := method, status := status } := ⟨_, rfl⟩
    have hbuf : Buffered cs₁ := by
      rw [hcs₁]
      exact ⟨.inr ⟨p, rfl, hp⟩, h.list, h.room⟩
    have hlen : cs₁.bodyLength = cs.bodyLength := by rw [hcs₁]; rfl
    rw [← hcs₁] at hpend
    unfold KeepAlive.serve
    rw [hpend]
    simp only
    split
    · by_cases hret : (mkRequestParse cs₁).1 = 0
      · rw [if_neg (by simpa using hret)]
        have hbound := mkRequestParse_bound hbuf.list (by rw [hcs₁]) (by rw [hcs₁]; exact hp)
          (hlen ▸ hlt) hret
        refine ⟨(mkRequestParse cs₁).2.requestList.map (·.body.text), ?_, Nat.zero_le _, rfl, rfl, ?_⟩
        · rcases hbound with hbad | ⟨hle, _⟩
          · exact .inl hbad
          · refine .inr (hle.trans ?_)
            have hplen := hp.length_le
            rw [List.length_drop, show mkEndblock.length = 4 from rfl] at hplen
            simp only [KeepAlive.held, Option.elim_some, mkRequestKaNext, ClientSession.bodyLength,
              List.length_nil, mkEndblock, List.length_cons]
            omega
        · rintro cs' ⟨⟩
          exact ⟨.inl rfl, rfl, Nat.zero_le _⟩
      · rw [if_pos hret]
        exact ⟨[], hclosed, Nat.zero_le _, by simp, rfl, by simp⟩
    · split
      · exact ⟨[], hclosed, Nat.zero_le _, by simp, rfl, by simp⟩
      · refine ⟨[], ?_, hlen.le, by simp, rfl, ?_⟩
        · simpa [KeepAlive.held, hlen] using hwait
        · rintro cs' ⟨⟩
          exact hbuf

/-! ## what is lost stays lost -/

theorem Buffered.received {cs : ClientSession} (h : Buffered cs) (s : KeepAlive) (e : ReadEvent)
    (fixed : Bool) : Buffered (cs.received fixed (s.chunk e cs)) := by
  refine ⟨?_, h.list, received_bodyLength_le h.room s e fixed⟩
  rcases h.posEnd with hpos | ⟨p, hpos, hp⟩
  · exact .inl hpos
  · exact .inr ⟨p, hpos, hp.trans ((List.prefix_append _ _).drop p)⟩

/-- The blocks no longer account for all that was sent. -/
structure Broken (rs : List Bytes) (s : KeepAlive) : Prop where
  buffered : ∀ cs, s.cs = some cs → Buffered cs
  length : s.held + s.stream.length ≤ rs.flatten.length
  lost : (∃ b ∈ s.blocks, mkEndblock <:+: b) ∨
    framedLength mkEndblock s.blocks + (s.held + s.stream.length) < rs.flatten.length

section

variable {cfg : Config} {rs : List Bytes} {s s' : KeepAlive} {e : ReadEvent} {cs : ClientSession}

theorem KeepAlive.Step.isOpen (h : s.Step cfg e s') : ∃ cs, s.cs = some cs := by
  cases hcs : s.cs with
  | none =>
      rw [KeepAlive.Step, KeepAlive.read, hcs] at h
      contradiction
  | some cs => exact ⟨cs, rfl⟩

theorem KeepAlive.held_of_some (hcs : s.cs = some cs) : s.held = cs.bodyLength := by
  rw [KeepAlive.held, hcs, Option.elim_some]

theorem KeepAlive.chunk_length (s : KeepAlive) (e : ReadEvent) (cs : ClientSession) :
    (s.chunk e cs).length + (s.stream.drop (s.chunk e cs).length).length = s.stream.length := by
  rw [← List.length_append, s.chunk_append]

theorem ClientSession.received_bodyLength (fixed : Bool) :
    (cs.received fixed (s.chunk e cs)).bodyLength = cs.bodyLength + (s.chunk e cs).length := by
  simp [ClientSession.received, ClientSession.bodyLength]

theorem Broken.step (hlt : rs.flatten.length < 2 ^ 64) (h : Broken rs s)
    (hstep : s.Step cfg e s') : Broken rs s' := by
  obtain ⟨cs, hcs⟩ := hstep.isOpen
  have hbuf := h.buffered cs hcs
  have hlen := h.length
  have hlost := h.lost
  rw [KeepAlive.held_of_some hcs] at hlen hlost
  rcases KeepAlive.step_cases hstep hcs hbuf.room with ⟨_, rfl⟩ | ⟨_, _, fixed, rfl⟩
  · refine ⟨by simp, by simp only [KeepAlive.held, Option.elim_none]; omega, ?_⟩
    rcases hlost with hbad | hlost
    · exact .inl hbad
    · exact .inr (by simp only [KeepAlive.held, Option.elim_none]; omega)
  · have hchunk := s.chunk_length e cs
    have hrecv := @ClientSession.received_bodyLength s e cs fixed
    obtain ⟨extra, hmost, hheld, hblocks, hstream, hbuf'⟩ :=
      @KeepAlive.serve_bound cfg e.now (s.stream.drop (s.chunk e cs).length) s.blocks _
        (hbuf.received s e fixed) (by omega)
    refine ⟨hbuf', by rw [hstream]; omega, ?_⟩
    rw [hblocks, hstream, framedLength_append]
    rcases hlost with ⟨b, hb, hbad⟩ | hlost
    · exact .inl ⟨b, List.mem_append_left _ hb, hbad⟩
    · rcases hmost with ⟨b, hb, hbad⟩ | hmost
      · exact .inl ⟨b, List.mem_append_right _ hb, hbad⟩
      · exact .inr (by omega)

/-- A broken connection does not deliver the requests. -/
theorem Broken.blocks_ne (hrs : ∀ r ∈ rs, IsRequest r) (h : Broken rs s) :
    s.blocks ≠ rs.map (frameHead mkEndblock) := by
  intro heq
  have hlost := h.lost
  rw [heq] at hlost
  rcases hlost with ⟨b, hb, hbad⟩ | hlost
  · obtain ⟨r, hr, rfl⟩ := List.mem_map.mp hb
    exact (hrs r hr).isFrame.not_infix_frameHead mkEndblock_ne_nil hbad
  · rw [framedLength_frameHead fun r hr => (hrs r hr).isFrame] at hlost
    omega

/-! ## an unclean read -/

/-- As long as nothing is lost the blocks, the buffer and the rest of the stream
make up what was sent. -/
theorem Aligned.total (hrs : ∀ r ∈ rs, IsRequest r) (h : Aligned rs s cs) :
    framedLength mkEndblock s.blocks + (cs.bodyLength + s.stream.length) = rs.flatten.length := by
  have hblocks : framedLength mkEndblock s.blocks = (rs.take s.blocks.length).flatten.length := by
    conv_lhs => rw [h.blocks]
    exact framedLength_frameHead fun r hr => (hrs r (List.mem_of_mem_take hr)).isFrame
  have hstream := congrArg List.length h.stream
  rw [List.length_append] at hstream
  conv_rhs => rw [← List.take_append_drop s.blocks.length rs, List.flatten_append,
    List.length_append]
  unfold ClientSession.bodyLength
  omega

/-- A connection closed with bytes in its buffer. -/
theorem Aligned.broken_closed (hrs : ∀ r ∈ rs, IsRequest r) (h : Aligned rs s cs)
    (hpos : 0 < cs.bodyLength) : Broken rs ⟨none, s.stream, s.blocks⟩ := by
  have htotal := h.total hrs
  refine ⟨by simp, ?_, .inr ?_⟩
  · simp only [KeepAlive.held, Option.elim_none]
    omega
  · simp only [KeepAlive.held, Option.elim_none]
    omega

/-- A round that ends with less handed over than received. -/
theorem Aligned.broken_round (hrs : ∀ r ∈ rs, IsRequest r) (h : Aligned rs s cs)
    (hne : s.chunk e cs ≠ []) (fixed : Bool) {p : Nat}
    (hmethod : mkHttpMethodGet (cs.body ++ s.chunk e cs) = .get ∨
      mkHttpMethodGet (cs.body ++ s.chunk e cs) = .head)
    (hlen : mkEndblock.length ≤ (cs.body ++ s.chunk e cs).length)
    (hpos : pendingPosEnd (cs.received fixed (s.chunk e cs)) = p)
    (hextra : (mkRequestParse ((cs.received fixed (s.chunk e cs)).completed p)).1 = 0 →
      (∃ b ∈ (mkRequestParse ((cs.received fixed (s.chunk e cs)).completed p)).2.requestList.map
        (·.body.text), mkEndblock <:+: b) ∨
      framedLength mkEndblock ((mkRequestParse ((cs.received fixed
        (s.chunk e cs)).completed p)).2.requestList.map (·.body.text)) <
          (cs.body ++ s.chunk e cs).length) :
    Broken rs (KeepAlive.serve cfg e.now (s.stream.drop (s.chunk e cs).length) s.blocks
      (cs.received fixed (s.chunk e cs))) := by
  have hrecv := h.toReceiving.received s e fixed
  have htotal := h.total hrs
  have hchunk := s.chunk_length e cs
  have hvpos := List.length_pos_iff.mpr hne
  have hv : (cs.body ++ s.chunk e cs).length = cs.bodyLength + (s.chunk e cs).length :=
    List.length_append
  rw [KeepAlive.serve_done hrecv hmethod hlen hpos]
  split
  · refine ⟨by simp, ?_, .inr ?_⟩
    · simp only [KeepAlive.held, Option.elim_none]
      omega
    · simp only [KeepAlive.held, Option.elim_none]
      omega
  · next hret =>
      refine ⟨?_, ?_, ?_⟩
      · rintro cs' ⟨⟩
        exact ⟨.inl rfl, rfl, Nat.zero_le _⟩
      · simp only [KeepAlive.held, Option.elim_some, mkRequestKaNext, ClientSession.bodyLength,
          List.length_nil]
        omega
      · rcases hextra (not_not.mp hret) with ⟨b, hb, hbad⟩ | hless
        · exact .inl ⟨b, List.mem_append_right _ hb, hbad⟩
        · refine .inr ?_
          rw [framedLength_append]
          simp only [KeepAlive.held, Option.elim_some, mkRequestKaNext, ClientSession.bodyLength,
            List.length_nil]
          omega

/-- A buffer with a blank line starts with a whole request. -/
theorem Aligned.first_request (hrs : ∀ r ∈ rs, IsRequest r) (h : Aligned rs s cs)
    (hterm : mkEndblock <:+: cs.body ++ s.chunk e cs) :
    ∃ r qs, rs.drop s.blocks.length = r :: qs ∧ IsRequest r ∧ r <+: cs.body ++ s.chunk e cs := by
  have happ := h.received_append e
  cases hqs : rs.drop s.blocks.length with
  | nil =>
      rw [hqs, List.flatten_nil, List.append_eq_nil_iff] at happ
      rw [happ.1] at hterm
      exact absurd (List.infix_nil.mp hterm) mkEndblock_ne_nil
  | cons r qs =>
      have hr : IsRequest r := hrs r (List.mem_of_mem_drop (hqs ▸ List.mem_cons_self))
      rw [hqs, List.flatten_cons] at happ
      exact ⟨r, qs, rfl, hr, hr.isFrame.whole_of_term ⟨_, happ⟩ hterm⟩

theorem method_of_request {r v : Bytes} (hr : IsRequest r) (hpre : r <+: v) :
    mkHttpMethodGet v = .get ∨ mkHttpMethodGet v = .head := by
  obtain ⟨t, rfl⟩ := hpre
  exact hr.mkHttpMethodGet_append t

/-- A buffer that ends with a blank line and holds more than the first request has
room for another blank line behind it. -/
theorem Aligned.first_length_le {r : Bytes} {qs : List Bytes} (hrs : ∀ r ∈ rs, IsRequest r)
    (h : Aligned rs s cs) (hqs : rs.drop s.blocks.length = r :: qs)
    (hpre : r <+: cs.body ++ s.chunk e cs) (htail : mkEndblock <:+ cs.body ++ s.chunk e cs)
    (hmore : r ≠ cs.body ++ s.chunk e cs) :
    r.length + mkEndblock.length ≤ (cs.body ++ s.chunk e cs).length := by
  obtain ⟨w, hw⟩ := hpre
  have hwne : w ≠ [] := by
    rintro rfl
    exact hmore (by rw [← hw, List.append_nil])
  have hwtail : mkEndblock <:+ w := by
    apply IsFrame.suffix_of_append (hw ▸ htail) hwne
    rintro c t rfl
    have happ := h.received_append e
    rw [hqs, List.flatten_cons, ← hw, List.append_assoc] at happ
    have hrest := List.append_cancel_left happ
    cases qs with
    | nil => simp at hrest
    | cons q qs =>
        have hmem : q ∈ rs.drop s.blocks.length := by simp [hqs]
        obtain ⟨d, u, rfl, hd⟩ := (hrs q (List.mem_of_mem_drop hmem)).starts
        obtain rfl : c = d := by simpa using (List.cons.inj hrest).1
        exact hd
  have hwlen := hwtail.length_le
  rw [← hw, List.length_append]
  omega

/-- A round that ends at the end of a request, with more than the first request in
the first round or with a NUL in a later one. -/
theorem Aligned.broken_tail (hrs : ∀ r ∈ rs, IsRequest r) (hlt : rs.flatten.length < 2 ^ 64)
    (h : Aligned rs s cs) (hne : s.chunk e cs ≠ []) (fixed : Bool)
    (htail : mkEndblock <:+ cs.body ++ s.chunk e cs)
    (hbad : if cs.counterConnections > 0 then 0 ∈ cs.body ++ s.chunk e cs
      else (rs.drop s.blocks.length).head? ≠ some (cs.body ++ s.chunk e cs)) :
    Broken rs (KeepAlive.serve cfg e.now (s.stream.drop (s.chunk e cs).length) s.blocks
      (cs.received fixed (s.chunk e cs))) := by
  have hrecv := h.toReceiving.received s e fixed
  have htotal := h.total hrs
  have hchunk := s.chunk_length e cs
  obtain ⟨r, qs, hqs, hr, hpre⟩ := h.first_request hrs htail.isInfix
  have hmethod := method_of_request hr hpre
  obtain ⟨p, hp⟩ := Nat.exists_eq_add_of_le' htail.length_le
  have hpos : pendingPosEnd (cs.received fixed (s.chunk e cs)) = p := by
    rw [pendingPosEnd_eq hrecv.posEnd htail.length_le,
      if_pos (show mkEndblock <:+ (cs.received fixed (s.chunk e cs)).body from htail)]
    simp only [ClientSession.bodyLength, ClientSession.received]
    omega
  have hblank : mkEndblock <+: (cs.body ++ s.chunk e cs).drop p := by
    rw [← show (cs.body ++ s.chunk e cs).length - mkEndblock.length = p by omega,
      ← List.suffix_iff_eq_drop.mp htail]
  have hvlt : (cs.body ++ s.chunk e cs).length < 2 ^ 64 := by
    rw [List.length_append]
    unfold ClientSession.bodyLength at htotal
    omega
  refine h.broken_round hrs hne fixed hmethod htail.length_le hpos fun hret => ?_
  by_cases hlater : cs.counterConnections > 0
  · rw [if_pos hlater] at hbad
    rcases @mkRequestParse_bound ((cs.received fixed (s.chunk e cs)).completed p) p hrecv.list rfl
      hblank hvlt hret with hbad' | ⟨_, h0⟩
    · exact .inl hbad'
    · have hall : ((cs.received fixed (s.chunk e cs)).completed p).body.take
          (p + mkEndblock.length) = cs.body ++ s.chunk e cs := by
        rw [← hp]
        exact List.take_length
      exact absurd (hall ▸ hbad) (h0 hlater)
  · rw [if_neg hlater, hqs] at hbad
    -- the only block reaches over the first request
    obtain ⟨b, hparse⟩ := @mkRequestParse_ok ((cs.received fixed (s.chunk e cs)).completed p)
      [requestNode ((cs.received fixed (s.chunk e cs)).completed p) 0 p] hrecv.list
      (mkRequestParseLoop_first hlater rfl)
      (by simpa [requestNode, ClientSession.completed, ClientSession.received] using hmethod)
    rw [hparse]
    refine .inl ⟨(cs.body ++ s.chunk e cs).take p, ?_, ?_⟩
    · simp only [List.map_singleton, List.mem_singleton]
      exact (requestNode_text ((cs.received fixed (s.chunk e cs)).completed p) (Nat.zero_le p)
        (by omega)).symm
    · have hroom := h.first_length_le hrs hqs hpre htail (by simpa using hbad)
      have hwhole : r <+: (cs.body ++ s.chunk e cs).take p :=
        List.prefix_take_iff.mpr ⟨hpre, by omega⟩
      exact hr.ends.isInfix.trans hwhole.isInfix

/-- A round that ends at a blank line before the end of the buffer. -/
theorem Aligned.broken_search (hrs : ∀ r ∈ rs, IsRequest r) (hlt : rs.flatten.length < 2 ^ 64)
    (h : Aligned rs s cs) (hne : s.chunk e cs ≠ []) (fixed : Bool)
    (htail : ¬ mkEndblock <:+ cs.body ++ s.chunk e cs) {q : Nat}
    (hq : strstr (cs.body ++ s.chunk e cs) mkEndblock = some q) :
    Broken rs (KeepAlive.serve cfg e.now (s.stream.drop (s.chunk e cs).length) s.blocks
      (cs.received fixed (s.chunk e cs))) := by
  have hrecv := h.toReceiving.received s e fixed
  have htotal := h.total hrs
  have hchunk := s.chunk_length e cs
  have hterm := isInfix_of_strstr hq
  obtain ⟨r, qs, hqs, hr, hpre⟩ := h.first_request hrs hterm
  have hpos : pendingPosEnd (cs.received fixed (s.chunk e cs)) = q := by
    rw [pendingPosEnd_eq hrecv.posEnd hterm.length_le,
      if_neg (show ¬ mkEndblock <:+ (cs.received fixed (s.chunk e cs)).body from htail),
      mkStringSearch, show (cs.received fixed (s.chunk e cs)).body = cs.body ++ s.chunk e cs from rfl,
      hq]
    rfl
  have hblank := isPrefix_drop_of_strstr hq
  have hqlen := hblank.length_le
  have hend : mkEndblock.length = 4 := rfl
  rw [List.length_drop] at hqlen
  have hqlt : q + mkEndblock.length < (cs.body ++ s.chunk e cs).length := by
    by_contra hge
    apply htail
    rw [hblank.eq_of_length (by rw [List.length_drop]; omega)]
    exact List.drop_suffix _ _
  have hvlt : (cs.body ++ s.chunk e cs).length < 2 ^ 64 := by
    rw [List.length_append]
    unfold ClientSession.bodyLength at htotal
    omega
  refine h.broken_round hrs hne fixed (method_of_request hr hpre) hterm.length_le hpos
    fun hret => ?_
  rcases @mkRequestParse_bound ((cs.received fixed (s.chunk e cs)).completed q) q hrecv.list rfl
    hblank hvlt hret with hbad | ⟨hle, _⟩
  · exact .inl hbad
  · exact .inr (by omega)

/-- A blank line behind a NUL is not found. -/
theorem zero_mem_of_hidden {v : Bytes} (hterm : mkEndblock <:+: v)
    (hnone : strstr v mkEndblock = none) : 0 ∈ v := by
  by_contra h0
  obtain ⟨a, b, rfl⟩ := hterm
  obtain ⟨p, hp, _⟩ := @findSub_of_prefix_drop mkEndblock (a ++ mkEndblock ++ b) a.length
    (by simp) (by simp)
  rw [strstr, cstr_eq_self h0, hp] at hnone
  contradiction

theorem strstr_append_of_zero_mem {v : Bytes} (h0 : 0 ∈ v) (w needle : Bytes) :
    strstr (v ++ w) needle = strstr v needle := by
  have hne : (List.takeWhile (fun c : UInt8 => decide (c ≠ 0)) v).length ≠ v.length := by
    intro hlen
    have hall := (List.takeWhile_prefix _).eq_of_length hlen
    have := List.takeWhile_eq_self_iff.mp hall 0 h0
    simp at this
  rw [strstr, strstr, cstr, cstr, List.takeWhile_append, if_neg hne]

/-- The buffer holds a whole request, but its blank line lies behind a NUL. -/
structure Hidden (rs : List Bytes) (s : KeepAlive) (cs : ClientSession) : Prop extends
    Aligned rs s cs where
  term : mkEndblock <:+: cs.body
  tail : ¬ mkEndblock <:+ cs.body
  search : strstr cs.body mkEndblock = none

/-- A read that leaves the blank line hidden. -/
theorem Aligned.hide (hrs : ∀ r ∈ rs, IsRequest r)
    (htotal : (rs.flatten.length : Int) < cfg.maxRequestSize) (h : Aligned rs s cs)
    (hne : s.chunk e cs ≠ []) (hterm : mkEndblock <:+: cs.body ++ s.chunk e cs)
    (htail : ¬ mkEndblock <:+ cs.body ++ s.chunk e cs)
    (hnone : strstr (cs.body ++ s.chunk e cs) mkEndblock = none) (fixed : Bool) :
    Hidden rs (KeepAlive.serve cfg e.now (s.stream.drop (s.chunk e cs).length) s.blocks
      (cs.received fixed (s.chunk e cs))) (cs.received fixed (s.chunk e cs)) := by
  have hlt := h.received_lt hrs hne htail
  have hrecv := h.toReceiving.received s e fixed
  rw [KeepAlive.serve_wait hrecv htail hnone
    (by simp only [ClientSession.bodyLength, ClientSession.received]; omega)]
  exact ⟨⟨hrecv, rfl, h.blocks, h.received_append e⟩, hterm, htail, hnone⟩

theorem Hidden.step (hrs : ∀ r ∈ rs, IsRequest r)
    (htotal : (rs.flatten.length : Int) < cfg.maxRequestSize) (hmax : cfg.maxRequestSize < 2 ^ 31)
    (h : Hidden rs s cs) (hstep : s.Step cfg e s') : Broken rs s' ∨ ∃ cs', Hidden rs s' cs' := by
  have h0 := zero_mem_of_hidden h.term h.search
  rcases KeepAlive.step_cases hstep h.session h.room with ⟨hfull, rfl⟩ | ⟨_, hne, fixed, rfl⟩
  · exact .inl (h.broken_closed hrs (lt_of_lt_of_le h.size hfull.1))
  · have hterm : mkEndblock <:+: cs.body ++ s.chunk e cs :=
      h.term.trans (List.prefix_append _ _).isInfix
    by_cases htail : mkEndblock <:+ cs.body ++ s.chunk e cs
    · refine .inl (h.broken_tail hrs (by omega) hne fixed htail ?_)
      split
      · exact List.mem_append_left _ h0
      · intro hhead
        obtain ⟨r, qs, hqs, hr, _⟩ := h.first_request hrs hterm
        have hstream := h.stream
        rw [hqs, List.flatten_cons] at hstream
        have hle := (hr.isFrame.whole_of_term ⟨_, hstream⟩ h.term).length_le
        have hpos := List.length_pos_iff.mpr hne
        rw [hqs, List.head?_cons, Option.some.injEq] at hhead
        rw [hhead, List.length_append] at hle
        omega
    · exact .inr ⟨_, h.hide hrs htotal hne hterm htail
        (by rw [strstr_append_of_zero_mem h0, h.search]) fixed⟩

/-- A read that is not clean breaks the connection, at the latest when the round
ends. -/
theorem Synced.unclean_step (hrs : ∀ r ∈ rs, IsRequest r)
    (htotal : (rs.flatten.length : Int) < cfg.maxRequestSize) (hmax : cfg.maxRequestSize < 2 ^ 31)
    (h : Synced rs s cs) (hstep : s.Step cfg e s') (hunclean : ¬ CleanRead cfg rs s e) :
    Broken rs s' ∨ ∃ cs', Hidden rs s' cs' := by
  have hclean : ∀ P : Prop, (¬ cs.Full cfg e.reallocOk ∧
      (¬ mkEndblock <:+: cs.body ++ s.chunk e cs ∨
        ∃ k, cs.body ++ s.chunk e cs = ((rs.drop s.blocks.length).take k).flatten ∧
          if cs.counterConnections > 0 then 0 ∉ cs.body ++ s.chunk e cs else k = 1)) → P := by
    intro P hc
    refine absurd ?_ hunclean
    intro cs' hcs'
    rw [h.session] at hcs'
    obtain rfl := Option.some.inj hcs'
    exact hc
  rcases KeepAlive.step_cases hstep h.session h.room with ⟨hfull, rfl⟩ | ⟨hfull, hne, fixed, rfl⟩
  · exact .inl (h.broken_closed hrs (lt_of_lt_of_le h.size hfull.1))
  · by_cases hterm : mkEndblock <:+: cs.body ++ s.chunk e cs
    · by_cases htail : mkEndblock <:+ cs.body ++ s.chunk e cs
      · refine .inl (h.broken_tail hrs (by omega) hne fixed htail ?_)
        obtain ⟨k, _, hk⟩ := IsFrame.eq_flatten_of_ends
          (fun r hr => (hrs r (List.mem_of_mem_drop hr)).isFrame)
          ⟨_, h.received_append e⟩ (by simp [hne]) htail
        split
        · next hlater =>
            by_contra h0
            exact hclean _ ⟨hfull, .inr ⟨k, hk, by rwa [if_pos hlater]⟩⟩
        · next hfirst =>
            intro hhead
            refine hclean _ ⟨hfull, .inr ⟨1, ?_, by rw [if_neg hfirst]⟩⟩
            obtain ⟨qs, hqs⟩ := List.head?_eq_some_iff.mp hhead
            rw [hqs]
            simp
      · cases hs : strstr (cs.body ++ s.chunk e cs) mkEndblock with
        | some q => exact .inl (h.broken_search hrs (by omega) hne fixed htail hs)
        | none => exact .inr ⟨_, h.hide hrs htotal hne hterm htail hs fixed⟩
    · exact hclean _ ⟨hfull, .inl hterm⟩

/-! ## whole connections -/

/-- The connection has read everything, or is closed. -/
def KeepAlive.Ended (s : KeepAlive) : Prop := s.stream = [] ∨ s.cs = none

/-- A connection that ends in step has delivered the requests. -/
theorem Synced.ended (hrs : ∀ r ∈ rs, IsRequest r) (h : Synced rs s cs) (hend : s.Ended) :
    s.blocks = rs.map (frameHead mkEndblock) := by
  have hnil : s.stream = [] := hend.resolve_right (by simp [h.session])
  have hstream := h.stream
  rw [hnil, List.append_nil] at hstream
  have hdrop : rs.drop s.blocks.length = [] := by
    by_contra hne
    apply h.inside
    rw [hstream]
    exact (IsFrame.flatten_ends
      (fun r hr => (hrs r (List.mem_of_mem_drop hr)).isFrame) hne).isInfix
  rw [h.blocks, List.take_of_length_le (List.drop_eq_nil_iff.mp hdrop)]

theorem Hidden.not_ended (hrs : ∀ r ∈ rs, IsRequest r) (h : Hidden rs s cs) : ¬ s.Ended := by
  intro hend
  have hnil : s.stream = [] := hend.resolve_right (by simp [h.session])
  have hstream := h.stream
  rw [hnil, List.append_nil] at hstream
  apply h.tail
  rw [hstream]
  apply IsFrame.flatten_ends fun r hr => (hrs r (List.mem_of_mem_drop hr)).isFrame
  intro hdrop
  have hterm := h.term
  rw [hstream, hdrop] at hterm
  exact mkEndblock_ne_nil (List.infix_nil.mp hterm)

/-- From a connection in step: the requests are delivered exactly by clean
reads. -/
theorem Synced.delivers_iff (hrs : ∀ r ∈ rs, IsRequest r)
    (htotal : (rs.flatten.length : Int) < cfg.maxRequestSize) (hmax : cfg.maxRequestSize < 2 ^ 31)
    {t : KeepAlive} {es : List ReadEvent} (h : Synced rs s cs)
    (hrun : Run (KeepAlive.Step cfg) s es t) (hend : t.Ended) :
    t.blocks = rs.map (frameHead mkEndblock) ↔
      Run (Guarded (CleanRead cfg rs) (KeepAlive.Step cfg)) s es t := by
  constructor
  · intro hblocks
    induction hrun generalizing cs with
    | nil s => exact .nil s
    | @cons s s' t e es hstep hrest ih =>
        by_cases hclean : CleanRead cfg rs s e
        · obtain ⟨cs', h'⟩ := h.step hrs htotal hmax hclean hstep
          exact .cons ⟨hclean, hstep⟩ (ih h' hend hblocks)
        · have hinv := hrest.invariant
            (fun s e s' (hi : Broken rs s ∨ ∃ cs, Hidden rs s cs) hs => by
              rcases hi with hb | ⟨cs, hh⟩
              · exact .inl (hb.step (by omega) hs)
              · exact hh.step hrs htotal hmax hs)
            (h.unclean_step hrs htotal hmax hstep hclean)
          rcases hinv with hb | ⟨cs', hh⟩
          · exact absurd hblocks (hb.blocks_ne hrs)
          · exact absurd hend (hh.not_ended hrs)
  · intro hguarded
    obtain ⟨cs', h'⟩ := hguarded.guarded_invariant
      (fun s e s' (hi : ∃ cs, Synced rs s cs) hc hs => hi.elim fun cs hi =>
        hi.step hrs htotal hmax hc hs) ⟨cs, h⟩
    exact h'.ended hrs hend

end

/-- **Request blocks**: on a connection that is kept alive, whatever complete GET
and HEAD requests are sent and however their bytes arrive, the blocks handed to
processing are the requests in order, one block each, if and only if every read is
clean.  (`max_request_size` is an `int`.) -/
theorem request_blocks_iff {cfg : Config} {rs : List Bytes} {socket arriveTime : Int}
    {es : List ReadEvent} {t : KeepAlive} (hmax : cfg.maxRequestSize < 2 ^ 31)
    (hrs : ∀ r ∈ rs, IsRequest r) (htotal : (rs.flatten.length : Int) < cfg.maxRequestSize)
    (hrun : Run (KeepAlive.Step cfg) (KeepAlive.init socket arriveTime rs) es t)
    (hend : t.Ended) :
    t.blocks = rs.map (frameHead mkEndblock) ↔ Run (Guarded (CleanRead cfg rs)
      (KeepAlive.Step cfg)) (KeepAlive.init socket arriveTime rs) es t :=
  (synced_init socket arriveTime rs).delivers_iff hrs htotal hmax hrun hend

theorem isRequest_sampleRequest : IsRequest sampleRequest :=
  ⟨.inl (by decide), by decide, fun _ hq => endblock_only (by decide) hq⟩

/-- Two requests, the first in two reads and the second in one. -/
theorem request_blocks_three_reads :
    ∃ t, Run (Guarded (CleanRead sampleConfig [sampleRequest, sampleRequest])
      (KeepAlive.Step sampleConfig)) (KeepAlive.init 5 0 [sampleRequest, sampleRequest])
        [⟨10, true, 0⟩, ⟨18, true, 0⟩, ⟨28, true, 1⟩] t := by
  refine ⟨_, (@request_blocks_iff sampleConfig [sampleRequest, sampleRequest] 5 0
    [⟨10, true, 0⟩, ⟨18, true, 0⟩, ⟨28, true, 1⟩] _ (by decide) ?_ (by decide)
    (Run.of_foldlM (f := KeepAlive.read sampleConfig) rfl) (.inl (by decide))).mp (by decide)⟩
  simpa using isRequest_sampleRequest

/-- Two requests that arrive together on a new connection are one block. -/
theorem request_blocks_merged :
    ¬ ∀ (cfg : Config) (rs : List Bytes) (socket arriveTime : Int) (es : List ReadEvent)
      (t : KeepAlive), cfg.maxRequestSize < 2 ^ 31 → (∀ r ∈ rs, IsRequest r) →
      (rs.flatten.length : Int) < cfg.maxRequestSize →
      Run (KeepAlive.Step cfg) (KeepAlive.init socket arriveTime rs) es t → t.Ended →
      t.blocks = rs.map (frameHead mkEndblock) := by
  intro hall
  have hmerged := hall sampleConfig [sampleRequest, sampleRequest] 5 0 [⟨56, true, 0⟩] _
    (by decide) (by simpa using isRequest_sampleRequest) (by decide)
    (Run.of_foldlM (f := KeepAlive.read sampleConfig) rfl) (.inl (by decide))
  exact absurd hmerged (by decide)

end Monkey
