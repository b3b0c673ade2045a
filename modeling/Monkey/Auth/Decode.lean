import Monkey.Auth.Users
import Monkey.Lib.Block

/-!
# Monkey.Auth.Decode

`base64_decode` with the buffer it fills, and the NUL that `mk_auth_validate_user` writes
behind what it got.

The buffer has three bytes for each four characters, so that only a padded text leaves
room for the NUL.
-/

namespace Monkey.Auth

/-! ## the decoder and its buffer -/

/-- The locals of the loop of `base64_decode`: the buffer and the position in it, the
characters of the group so far and the number of paddings. -/
structure DecodeState where
  out : Bytes
  pos : Nat := 0
  block : Bytes := []
  pad : Nat := 0

/-- The three bytes of a full `block`. -/
def base64Group : Bytes → Bytes
  | [a, b, c, d] => [(a <<< 2) ||| (b >>> 4), (b <<< 4) ||| (c >>> 2), (c <<< 6) ||| d]
  | _ => []

/-- The second loop of `base64_decode`: the buffer and `*out_len`, or `NULL`.  There is no
result where it writes outside the buffer. -/
def base64FillLoop : Bytes → DecodeState → Option (Option (Bytes × Nat))
  | [], st => some (some (st.out, st.pos))
  | c :: src, st =>
      let tmp := dtable c
      if tmp = 0x80 then base64FillLoop src st
      else
        let pad := if c = base64Pad then st.pad + 1 else st.pad
        let block := st.block ++ [tmp]
        if block.length = 4 then
          (writeAt st.out st.pos (base64Group block)).bind fun out =>
            if pad = 0 then base64FillLoop src { out := out, pos := st.pos + 3 }
            else if pad = 1 then some (some (out, st.pos + 2))
            else if pad = 2 then some (some (out, st.pos + 1))
            else some none
        else base64FillLoop src { st with block := block, pad := pad }

/-- The characters that are not skipped. -/
def base64Chars (src : Bytes) : Bytes := src.filter (dtable · ≠ 0x80)

/-- `base64_decode` with its buffer of `olen` bytes. -/
def base64DecodeBuffer (junk : Nat → UInt8) (src : Bytes) : Option (Option (Bytes × Nat)) :=
  let count := (base64Chars src).length
  if count = 0 ∨ count % 4 ≠ 0 then some none
  else base64FillLoop src { out := newBuffer junk (count / 4 * 3) }

/-! ## the validation and its writes -/

/-- How the write of the terminator goes wrong. -/
inductive TerminatorFault
  | nullResult
  | outside
deriving DecidableEq, Repr

/-- `decoded[auth_len] = '\0'`. -/
def writeTerminator : Option (Bytes × Nat) → Except TerminatorFault (Bytes × Nat)
  | none => .error .nullResult
  | some (decoded, authLen) =>
      (writeAt decoded authLen [0]).elim (.error .outside) fun decoded => .ok (decoded, authLen)

section sha1

variable (junk : Nat → UInt8) (sha1 : Bytes → Bytes)

/-- What `mk_auth_validate_user` does with the decoded credentials. -/
def validateDecoded (users : List User) (decoded : Bytes) (authLen : Nat) : Int :=
  if authLen ≤ 3 then -1
  else
    let sep := mkStringSearchN decoded [0x3a] authLen
    if sep = -1 ∨ sep = 0 ∨ sep = authLen - 1 then -1
    else
      let digest := sha1 ((decoded.drop (sep.toNat + 1)).take (authLen - (sep.toNat + 1)))
      validateLoop decoded sep.toNat digest users

/-- `mk_auth_validate_user` on the memory it uses. -/
def mkAuthValidateUserMem (users : List User) (credentials : Bytes) : Except TerminatorFault Int :=
  if credentials.length ≤ authHeaderBasic.length + 1 then .ok (-1)
  else if strncmp credentials authHeaderBasic authHeaderBasic.length = false then .ok (-1)
  else
    match base64DecodeBuffer junk (credentials.drop authHeaderBasic.length) with
    | none => .error .outside
    | some res =>
        (writeTerminator res).map fun (decoded, authLen) => validateDecoded sha1 users decoded authLen

end sha1

/-! ## the texts that leave room -/

/-- The first group of four with a padding has one or two. -/
def PaddedWell (chars : Bytes) : Prop :=
  ∃ full group rest, chars = full ++ group ++ rest ∧ full.length % 4 = 0 ∧ base64Pad ∉ full ∧
    group.length = 4 ∧ (group.count base64Pad = 1 ∨ group.count base64Pad = 2)

/-- The credentials are refused as they are, or are groups of four with a good padding. -/
def TerminatorFits (credentials : Bytes) : Prop :=
  credentials.length ≤ authHeaderBasic.length + 1 ∨
    strncmp credentials authHeaderBasic authHeaderBasic.length = false ∨
    let chars := base64Chars (credentials.drop authHeaderBasic.length)
    chars.length % 4 = 0 ∧ PaddedWell chars

/-! ## the loop -/

/-- A character that is skipped changes nothing. -/
theorem base64FillLoop_chars (src : Bytes) (st : DecodeState) :
    base64FillLoop src st = base64FillLoop (base64Chars src) st := by
  unfold base64Chars
  induction src generalizing st with
  | nil => rfl
  | cons c src ih =>
      by_cases hc : dtable c = 0x80
      · rw [List.filter_cons_of_neg (by simp [hc]), base64FillLoop, if_pos hc]
        exact ih st
      · rw [List.filter_cons_of_pos (by simp [hc])]
        unfold base64FillLoop
        simp only [if_neg hc, ih]

/-- A group of four. -/
theorem base64FillLoop_group {a b c d : UInt8} (ha : dtable a ≠ 0x80) (hb : dtable b ≠ 0x80)
    (hc : dtable c ≠ 0x80) (hd : dtable d ≠ 0x80) (s out : Bytes) (pos : Nat) :
    base64FillLoop (a :: b :: c :: d :: s) { out := out, pos := pos } =
      (writeAt out pos (base64Group [dtable a, dtable b, dtable c, dtable d])).bind fun out =>
        match [a, b, c, d].count base64Pad with
        | 0 => base64FillLoop s { out := out, pos := pos + 3 }
        | 1 => some (some (out, pos + 2))
        | 2 => some (some (out, pos + 1))
        | _ => some none := by
  simp only [base64FillLoop, if_neg ha, if_neg hb, if_neg hc, if_neg hd, List.nil_append, List.cons_append,
    List.length_cons, List.length_nil, Nat.reduceAdd, Nat.reduceEqDiff, if_false, if_true]
  congr 1
  funext out'
  simp only [List.count_cons, List.count_nil, beq_iff_eq]
  by_cases h₁ : a = base64Pad
  all_goals by_cases h₂ : b = base64Pad
  all_goals by_cases h₃ : c = base64Pad
  all_goals by_cases h₄ : d = base64Pad
  all_goals simp [h₁, h₂, h₃, h₄]

/-- What does not fill a group is dropped. -/
theorem base64FillLoop_short {s : Bytes} (hs : ∀ c ∈ s, dtable c ≠ 0x80) (hlen : s.length < 4) (out : Bytes)
    (pos : Nat) : base64FillLoop s { out := out, pos := pos } = some (some (out, pos)) := by
  match s, hlen with
  | [], _ => rfl
  | [a], _ => simp [base64FillLoop, hs]
  | [a, b], _ => simp [base64FillLoop, hs]
  | [a, b, c], _ => simp [base64FillLoop, hs]

theorem base64DecodeLoop_short {s : Bytes} (hlen : s.length < 4) : base64DecodeLoop s = some [] := by
  match s, hlen with
  | [], _ => rfl
  | [a], _ => rfl
  | [a, b], _ => rfl
  | [a, b, c], _ => rfl

theorem take_fillAt_part {out bs : Bytes} {pos k : Nat} (hroom : pos + bs.length ≤ out.length) (hk : k ≤ bs.length) :
    (fillAt out pos bs).take (pos + k) = out.take pos ++ bs.take k := by
  have hall : (fillAt out pos bs).take (pos + bs.length) = out.take pos ++ bs := take_fillAt (by omega) bs
  have hpos : (out.take pos).length = pos := List.length_take_of_le (by omega)
  calc (fillAt out pos bs).take (pos + k)
      = ((fillAt out pos bs).take (pos + bs.length)).take (pos + k) := by
        rw [List.take_take, Nat.min_eq_left (by omega)]
    _ = out.take pos ++ bs.take k := by
        rw [hall, List.take_append, hpos, List.take_of_length_le (by omega), Nat.add_sub_cancel_left]

section group

variable {a b c d : UInt8} {s : Bytes}

theorem notSkipped_group (hs : ∀ e ∈ a :: b :: c :: d :: s, dtable e ≠ 0x80) :
    (dtable a ≠ 0x80 ∧ dtable b ≠ 0x80 ∧ dtable c ≠ 0x80 ∧ dtable d ≠ 0x80) ∧ ∀ e ∈ s, dtable e ≠ 0x80 := by
  simpa [and_assoc] using hs

theorem groups_cons (s : Bytes) : (a :: b :: c :: d :: s).length / 4 * 3 = s.length / 4 * 3 + 3 := by
  simp only [List.length_cons]
  omega

theorem length_lt_of_no_group (h : ∀ a b c d t, s = a :: b :: c :: d :: t → False) : s.length < 4 := by
  match s, h with
  | [], _ | [_], _ | [_, _], _ | [_, _, _], _ => simp
  | a :: b :: c :: d :: s, h => exact (h a b c d s rfl).elim

/-- The last group of a text, of which `k` bytes are kept. -/
theorem fill_last {out g : Bytes} {pos k n : Nat} (hroom : pos + (n + g.length) ≤ out.length)
    (hk : k ≤ g.length) (r : Option (Option (Bytes × Nat))) (hr : r = some (some (fillAt out pos g, pos + k))) :
    ∃ out', r = some ((some (g.take k)).map fun text => (out', pos + text.length)) ∧
      out'.length = out.length ∧
      ∀ text ∈ some (g.take k), text.length ≤ n + g.length ∧
        out'.take (pos + text.length) = out.take pos ++ text := by
  have hlen : (g.take k).length = k := List.length_take_of_le hk
  refine ⟨fillAt out pos g, ?_, length_fillAt (by omega), ?_⟩
  · rw [hr, Option.map_some, hlen]
  · rintro text ⟨⟩
    rw [hlen]
    exact ⟨by omega, take_fillAt_part (by omega) hk⟩

end group

/-- A group of three bytes, and what is decoded behind it. -/
theorem group_append {out out' g tail : Bytes} {pos n : Nat} (hg : g.length = 3) (hgroup : pos + g.length ≤ out.length)
    (hle : tail.length ≤ n) (htake : out'.take (pos + 3 + tail.length) = (fillAt out pos g).take (pos + 3) ++ tail) :
    (g ++ tail).length ≤ n + 3 ∧ out'.take (pos + (g ++ tail).length) = out.take pos ++ (g ++ tail) := by
  have htaken : (fillAt out pos g).take (pos + 3) = out.take pos ++ g := by
    rw [take_fillAt_part hgroup hg.ge, List.take_of_length_le hg.le]
  have hsum : pos + (g ++ tail).length = pos + 3 + tail.length := by
    rw [List.length_append, hg, Nat.add_assoc]
  refine ⟨?_, ?_⟩
  · rw [List.length_append, hg]
    omega
  · rw [hsum, htake, htaken, List.append_assoc]

/-- **The decoder fills its buffer**: it stays inside, and gives the bytes decoded, of
which there are at most three for four characters. -/
theorem base64FillLoop_spec {s : Bytes} (hs : ∀ c ∈ s, dtable c ≠ 0x80) (out : Bytes) (pos : Nat)
    (hroom : pos + s.length / 4 * 3 ≤ out.length) :
    ∃ out', base64FillLoop s { out := out, pos := pos } =
        some ((base64DecodeLoop s).map fun text => (out', pos + text.length)) ∧
      out'.length = out.length ∧
      ∀ text ∈ base64DecodeLoop s, text.length ≤ s.length / 4 * 3 ∧
        out'.take (pos + text.length) = out.take pos ++ text := by
  induction s using base64DecodeLoop.induct generalizing out pos with
  | case1 a b c d s hcount ih =>
      obtain ⟨⟨ha, hb, hc, hd⟩, hrest⟩ := notSkipped_group hs
      rw [groups_cons] at hroom ⊢
      let g := base64Group [dtable a, dtable b, dtable c, dtable d]
      have hg : g.length = 3 := rfl
      have hgroup : pos + g.length ≤ out.length := by omega
      have hlen := length_fillAt hgroup
      obtain ⟨out', hfill, hlen', htext⟩ := ih hrest (fillAt out pos g) (pos + 3) (by omega)
      refine ⟨out', ?_, hlen'.trans hlen, ?_⟩
      · rw [base64FillLoop_group ha hb hc hd, writeAt_of_le hgroup, base64DecodeLoop]
        simp only [hcount, Option.bind_some, Option.map_map]
        rw [hfill]
        congr 2
        funext text
        simp [Nat.add_assoc, Nat.add_comm 3]
      · intro text hmem
        simp only [base64DecodeLoop, hcount] at hmem
        obtain ⟨tail, htail, rfl⟩ := Option.mem_map.mp hmem
        obtain ⟨hle, htake⟩ := htext tail htail
        exact group_append hg hgroup hle htake
  | case2 a b c d s hcount | case3 a b c d s hcount =>
      obtain ⟨⟨ha, hb, hc, hd⟩, -⟩ := notSkipped_group hs
      rw [groups_cons] at hroom ⊢
      simp only [base64DecodeLoop, hcount]
      refine fill_last hroom (by simp) _ ?_
      rw [base64FillLoop_group ha hb hc hd, writeAt_of_le (by simp [base64Group]; omega)]
      simp only [hcount, Option.bind_some]
      rfl
  | case4 a b c d s h0 h1 h2 =>
      obtain ⟨⟨ha, hb, hc, hd⟩, -⟩ := notSkipped_group hs
      rw [groups_cons] at hroom ⊢
      rw [base64FillLoop_group ha hb hc hd, writeAt_of_le (by simp [base64Group]; omega)]
      refine ⟨_, ?_, rfl, ?_⟩
      · simp only [base64DecodeLoop, Option.bind_some, Option.map_none]
      · simp [base64DecodeLoop]
  | case5 s h =>
      have hlen := length_lt_of_no_group h
      rw [base64FillLoop_short hs hlen, base64DecodeLoop_short hlen]
      refine ⟨out, rfl, rfl, ?_⟩
      rintro text ⟨⟩
      simp

/-! ## the room for the terminator -/

/-- The first group decides, or the groups behind it. -/
theorem paddedWell_cons {a b c d : UInt8} {s : Bytes} : PaddedWell (a :: b :: c :: d :: s) ↔
    if [a, b, c, d].count base64Pad = 0 then PaddedWell s
    else [a, b, c, d].count base64Pad = 1 ∨ [a, b, c, d].count base64Pad = 2 := by
  constructor
  · rintro ⟨full, group, rest, heq, hmod, hpad, hlen, hcount⟩
    match full, hmod with
    | [], _ =>
        obtain ⟨rfl, -⟩ : group = [a, b, c, d] ∧ rest = s := by
          have heq' : [a, b, c, d] ++ s = group ++ rest := heq
          obtain ⟨hgroup, hrest⟩ := List.append_inj heq' hlen.symm
          exact ⟨hgroup.symm, hrest.symm⟩
        rw [if_neg (by omega)]
        exact hcount
    | [_], hmod | [_, _], hmod | [_, _, _], hmod => simp at hmod
    | a' :: b' :: c' :: d' :: full, hmod =>
        simp only [List.cons_append, List.cons.injEq] at heq
        obtain ⟨rfl, rfl, rfl, rfl, rfl⟩ := heq
        have hnone : [a, b, c, d].count base64Pad = 0 :=
          List.count_eq_zero.mpr fun h => hpad (List.mem_append_left full h)
        rw [if_pos hnone]
        refine ⟨full, group, rest, rfl, ?_, fun h => hpad (List.mem_append_right [a, b, c, d] h), hlen, hcount⟩
        simp only [List.length_cons] at hmod
        omega
  · split
    · next hnone =>
        rintro ⟨full, group, rest, rfl, hmod, hpad, hlen, hcount⟩
        refine ⟨[a, b, c, d] ++ full, group, rest, by simp, ?_, ?_, hlen, hcount⟩
        · simp only [List.length_append, List.length_cons, List.length_nil]
          omega
        · intro h
          rcases List.mem_append.mp h with h | h
          · exact List.count_eq_zero.mp hnone h
          · exact hpad h
    · exact fun hcount => ⟨[], [a, b, c, d], s, rfl, rfl, by simp, rfl, hcount⟩

theorem not_paddedWell_short {s : Bytes} (hlen : s.length < 4) : ¬ PaddedWell s := by
  rintro ⟨full, group, rest, rfl, -, -, hgroup, -⟩
  simp only [List.length_append] at hlen
  omega

/-- **Which texts leave room**: those that are padded. -/
theorem base64DecodeLoop_room_iff (s : Bytes) :
    (∃ text, base64DecodeLoop s = some text ∧ text.length < s.length / 4 * 3) ↔ PaddedWell s := by
  induction s using base64DecodeLoop.induct with
  | case1 a b c d s hcount ih =>
      rw [paddedWell_cons, if_pos hcount, ← ih, groups_cons]
      simp only [base64DecodeLoop, hcount, Option.map_eq_some_iff]
      constructor
      · rintro ⟨-, ⟨text, htext, rfl⟩, hlt⟩
        exact ⟨text, htext, by simpa using hlt⟩
      · rintro ⟨text, htext, hlt⟩
        exact ⟨_, ⟨text, htext, rfl⟩, by simpa using hlt⟩
  | case2 a b c d s hcount | case3 a b c d s hcount =>
      rw [paddedWell_cons, if_neg (by omega), groups_cons]
      simp only [base64DecodeLoop, hcount]
      simp
  | case4 a b c d s h0 h1 h2 =>
      rw [paddedWell_cons, if_neg h0, groups_cons]
      simp only [base64DecodeLoop]
      exact iff_of_false (by simp) (by rintro (h | h); exacts [h1 h, h2 h])
  | case5 s h =>
      have hlen := length_lt_of_no_group h
      rw [base64DecodeLoop_short hlen]
      exact iff_of_false (by simp; omega) (not_paddedWell_short hlen)

/-! ## the validation -/

/-- The decoder and its buffer, together. -/
theorem base64DecodeBuffer_spec (junk : Nat → UInt8) (src : Bytes) :
    ∃ out, base64DecodeBuffer junk src = some ((base64Decode src).map fun text => (out, text.length)) ∧
      out.length = (base64Chars src).length / 4 * 3 ∧
      ∀ text ∈ base64Decode src, text.length ≤ out.length ∧ out.take text.length = text := by
  unfold base64DecodeBuffer base64Decode
  rw [← base64Chars]
  by_cases hbad : (base64Chars src).length = 0 ∨ (base64Chars src).length % 4 ≠ 0
  · simp only [if_pos hbad]
    exact ⟨newBuffer junk ((base64Chars src).length / 4 * 3), rfl, length_newBuffer .., by simp⟩
  · simp only [if_neg hbad]
    have hchars : ∀ c ∈ base64Chars src, dtable c ≠ 0x80 := fun c hc => of_decide_eq_true (List.mem_filter.mp hc).2
    obtain ⟨out, hfill, hlen, htext⟩ :=
      base64FillLoop_spec hchars (newBuffer junk ((base64Chars src).length / 4 * 3)) 0
        (by rw [length_newBuffer]; omega)
    rw [length_newBuffer] at hlen
    refine ⟨out, ?_, hlen, ?_⟩
    · rw [base64FillLoop_chars, hfill]
      simp
    · intro text hmem
      obtain ⟨hle, htake⟩ := htext text hmem
      exact ⟨by omega, by simpa using htake⟩

/-- There is room for the terminator behind a text that is decoded and padded. -/
theorem base64Decode_room_iff (src : Bytes) :
    (∃ text, base64Decode src = some text ∧ text.length < (base64Chars src).length / 4 * 3) ↔
      (base64Chars src).length % 4 = 0 ∧ PaddedWell (base64Chars src) := by
  unfold base64Decode
  rw [← base64Chars]
  by_cases hbad : (base64Chars src).length = 0 ∨ (base64Chars src).length % 4 ≠ 0
  · simp only [if_pos hbad]
    refine iff_of_false (by simp) ?_
    rintro ⟨hmod, hpad⟩
    exact not_paddedWell_short (by omega) hpad
  · simp only [if_neg hbad]
    rw [base64DecodeLoop_room_iff, and_iff_right (by omega)]

theorem validateLoop_result (decoded : Bytes) (sep : Nat) (digest : Bytes) (users : List User) :
    validateLoop decoded sep digest users = 0 ∨ validateLoop decoded sep digest users = -1 := by
  induction users with
  | nil => exact .inr rfl
  | cons e users ih =>
      unfold validateLoop
      split
      · split
        · exact .inl rfl
        · exact .inr rfl
      · exact ih

theorem validateDecoded_result (sha1 : Bytes → Bytes) (users : List User) (decoded : Bytes) (authLen : Nat) :
    validateDecoded sha1 users decoded authLen = 0 ∨ validateDecoded sha1 users decoded authLen = -1 := by
  unfold validateDecoded
  split
  · exact .inr rfl
  · dsimp only
    split
    · exact .inr rfl
    · exact validateLoop_result ..

/-- The terminator is written where there is room behind the text. -/
theorem writeTerminator_of_lt {out : Bytes} {n : Nat} (h : n < out.length) :
    writeTerminator (some (out, n)) = .ok (fillAt out n [0], n) := by
  rw [writeTerminator, writeAt_of_le (by simpa using h), Option.elim_some]

theorem writeTerminator_of_le {out : Bytes} {n : Nat} (h : out.length ≤ n) :
    writeTerminator (some (out, n)) = .error .outside := by
  have hno : writeAt out n [0] = none := if_neg (by simpa using h)
  rw [writeTerminator, hno, Option.elim_none]

/-! ## what lies behind the terminator -/

/-- A search for one byte in a text does not look behind it. -/
theorem mkStringSearchLoop_append (x : UInt8) {text : Bytes} (hne : text ≠ []) (s t : Bytes) (i : Nat) :
    mkStringSearchLoop .insensitive [x] (i + text.length) (text ++ s) i =
      mkStringSearchLoop .insensitive [x] (i + text.length) (text ++ t) i := by
  induction text generalizing i with
  | nil => exact absurd rfl hne
  | cons c text ih =>
      simp only [List.cons_append, mkStringSearchLoop_cons, List.map_cons, List.map_nil, List.isPrefixOf_cons_cons,
        List.isPrefixOf_nil_left, List.length_cons]
      by_cases hlast : text = []
      · subst hlast
        simp
      · have hnext := ih hlast (i + 1)
        rw [show i + 1 + text.length = i + (text.length + 1) by omega] at hnext
        rw [hnext]

/-- What is found starts before the end of the search. -/
theorem mkStringSearchLoop_lt {search : Bytes} (hsearch : search ≠ []) {s : Bytes} {len i p : Nat} (hi : i < len)
    (h : mkStringSearchLoop .insensitive search len s i = some p) : p < len := by
  induction s generalizing i with
  | nil => simp [mkStringSearchLoop, hsearch] at h
  | cons c s ih =>
      rw [mkStringSearchLoop_cons] at h
      split at h
      · exact Option.some.inj h ▸ hi
      · split at h
        · contradiction
        · next hnext =>
          split at h
          · contradiction
          · exact ih (by omega) h

theorem mkStringSearchN_lt {search : Bytes} (hsearch : search ≠ []) (s : Bytes) {len : Nat} (hlen : 0 < len) :
    (mkStringSearchN s search len).toNat < len := by
  rw [mkStringSearchN, if_neg (by omega), Int.toNat_natCast]
  cases hscan : mkStringSearchLoop .insensitive search len s 0 with
  | none => exact hlen
  | some p => exact mkStringSearchLoop_lt hsearch hlen hscan

theorem mkStringSearchN_append (x : UInt8) {text : Bytes} (hne : text ≠ []) (s t : Bytes) :
    mkStringSearchN (text ++ s) [x] text.length = mkStringSearchN (text ++ t) [x] text.length := by
  have hpos : 0 < text.length := List.length_pos_iff.mpr hne
  unfold mkStringSearchN
  rw [if_neg (by omega), if_neg (by omega), Int.toNat_natCast]
  have hscan := mkStringSearchLoop_append x hne s t 0
  rw [Nat.zero_add] at hscan
  rw [hscan]

/-- Names are compared with the text only. -/
theorem validateLoop_append {text : Bytes} {sep : Nat} (hsep : sep ≤ text.length) (s digest : Bytes)
    (users : List User) : validateLoop (text ++ s) sep digest users = validateLoop text sep digest users := by
  have hlen : (text.take sep).length = sep := List.length_take_of_le hsep
  have hname : ∀ u, strncmp u (text ++ s) sep = strncmp u text sep := by
    intro u
    have hl := strncmpWith_append_right id u (text.take sep) (text.drop sep ++ s)
    have hr := strncmpWith_append_right id u (text.take sep) (text.drop sep)
    rw [hlen] at hl hr
    rw [← List.append_assoc, List.take_append_drop] at hl
    rw [List.take_append_drop] at hr
    rw [strncmp, strncmp, hl, hr]
  induction users with
  | nil => rfl
  | cons e users ih => rw [validateLoop, validateLoop, hname, ih]

/-- The validation of a text, whatever follows it in the buffer. -/
theorem validateDecoded_append (sha1 : Bytes → Bytes) (users : List User) (text s : Bytes) :
    validateDecoded sha1 users (text ++ s) text.length =
      if text.length ≤ 3 then -1
      else
        let sep := mkStringSearchN (text ++ [0]) [0x3a] text.length
        if sep = -1 ∨ sep = 0 ∨ sep = text.length - 1 then -1
        else validateLoop text sep.toNat (sha1 (text.drop (sep.toNat + 1))) users := by
  unfold validateDecoded
  by_cases hshort : text.length ≤ 3
  · rw [if_pos hshort, if_pos hshort]
  · have hne : text ≠ [] := by
      rintro rfl
      exact hshort (Nat.zero_le 3)
    rw [if_neg hshort, if_neg hshort, mkStringSearchN_append 0x3a hne s [0]]
    dsimp only
    have hle := mkStringSearchN_lt (List.cons_ne_nil 0x3a []) (text ++ [0]) (List.length_pos_iff.mpr hne)
    rw [validateLoop_append hle.le, List.drop_append_of_le_length hle, ← List.length_drop, List.take_left]

/-- `mk_auth_validate_user` without its memory. -/
theorem mkAuthValidateUser_of_basic (sha1 : Bytes → Bytes) (users : List User) {credentials : Bytes}
    (hlong : ¬ credentials.length ≤ authHeaderBasic.length + 1)
    (hbasic : ¬ strncmp credentials authHeaderBasic authHeaderBasic.length = false) :
    mkAuthValidateUser sha1 users credentials =
      (base64Decode (credentials.drop authHeaderBasic.length)).map fun text =>
        validateDecoded sha1 users (text ++ [0]) text.length := by
  rw [mkAuthValidateUser, if_neg hlong, if_neg hbasic]
  congr 1
  funext text
  rw [validateDecoded_append]

/-! ## the credentials of a request -/

section sha1

variable {junk : Nat → UInt8} {sha1 : Bytes → Bytes} {users : List User} {credentials : Bytes}

/-- **What becomes of the credentials**: they are refused as they are, the decoder gives
nothing, or there is room for the terminator or not. -/
theorem mkAuthValidateUserMem_of_basic (hlong : ¬ credentials.length ≤ authHeaderBasic.length + 1)
    (hbasic : ¬ strncmp credentials authHeaderBasic authHeaderBasic.length = false) :
    mkAuthValidateUserMem junk sha1 users credentials =
      match base64Decode (credentials.drop authHeaderBasic.length) with
      | none => .error .nullResult
      | some text =>
          if text.length < (base64Chars (credentials.drop authHeaderBasic.length)).length / 4 * 3 then
            .ok (validateDecoded sha1 users (text ++ [0]) text.length)
          else .error .outside := by
  obtain ⟨out, hbuffer, hlen, htext⟩ := base64DecodeBuffer_spec junk (credentials.drop authHeaderBasic.length)
  unfold mkAuthValidateUserMem
  rw [if_neg hlong, if_neg hbasic, hbuffer, ← hlen]
  cases hdec : base64Decode (credentials.drop authHeaderBasic.length) with
  | none => rfl
  | some text =>
      have hfill : fillAt out text.length [0] = text ++ 0 :: out.drop (text.length + 1) := by
        rw [fillAt, (htext text hdec).2, List.append_assoc]
        rfl
      simp only [Option.map_some]
      by_cases hlt : text.length < out.length
      · rw [writeTerminator_of_lt hlt, hfill, if_pos hlt]
        simp only [Except.map, validateDecoded_append]
      · rw [writeTerminator_of_le (by omega), if_neg hlt]
        rfl

/-- The memory is no more than a way to compute the answer. -/
theorem mkAuthValidateUserMem_refines {v : Int} (h : mkAuthValidateUserMem junk sha1 users credentials = .ok v) :
    mkAuthValidateUser sha1 users credentials = some v := by
  by_cases hlong : credentials.length ≤ authHeaderBasic.length + 1
  · rw [mkAuthValidateUserMem, if_pos hlong] at h
    rw [mkAuthValidateUser, if_pos hlong, Except.ok.inj h]
  · by_cases hbasic : strncmp credentials authHeaderBasic authHeaderBasic.length = false
    · rw [mkAuthValidateUserMem, if_neg hlong, if_pos hbasic] at h
      rw [mkAuthValidateUser, if_neg hlong, if_pos hbasic, Except.ok.inj h]
    · rw [mkAuthValidateUserMem_of_basic hlong hbasic] at h
      rw [mkAuthValidateUser_of_basic sha1 users hlong hbasic]
      cases hdec : base64Decode (credentials.drop authHeaderBasic.length) with
      | none => simp [hdec] at h
      | some text =>
          simp only [hdec] at h
          split at h
          · exact congrArg some (Except.ok.inj h)
          · contradiction

/-- **Safe credentials.**  Whatever the header holds, it is validated or refused inside the
memory exactly when it is refused as it is or its padding leaves room for the terminator. -/
theorem validate_safe_iff (junk : Nat → UInt8) (sha1 : Bytes → Bytes) (users : List User) (credentials : Bytes) :
    (mkAuthValidateUserMem junk sha1 users credentials = .ok 0 ∨
      mkAuthValidateUserMem junk sha1 users credentials = .ok (-1)) ↔ TerminatorFits credentials := by
  unfold TerminatorFits
  by_cases hlong : credentials.length ≤ authHeaderBasic.length + 1
  · simp [mkAuthValidateUserMem, hlong]
  · by_cases hbasic : strncmp credentials authHeaderBasic authHeaderBasic.length = false
    · simp [mkAuthValidateUserMem, hbasic]
    · simp only [hlong, hbasic, false_or]
      rw [mkAuthValidateUserMem_of_basic hlong hbasic, ← base64Decode_room_iff]
      cases hdec : base64Decode (credentials.drop authHeaderBasic.length) with
      | none => simp
      | some text =>
          have hresult := validateDecoded_result sha1 users (text ++ [0]) text.length
          by_cases hlt : text.length < (base64Chars (credentials.drop authHeaderBasic.length)).length / 4 * 3
          · simp [hlt, hresult]
          · simp [hlt]

end sha1

/-- Three bytes in four characters leave no room. -/
theorem validate_unsafe : ¬ ∀ (junk : Nat → UInt8) (sha1 : Bytes → Bytes) (users : List User) (credentials : Bytes),
    mkAuthValidateUserMem junk sha1 users credentials = .ok 0 ∨
      mkAuthValidateUserMem junk sha1 users credentials = .ok (-1) := by
  intro h
  have hsafe := h (fun _ => 0) (fun _ => []) [] (ascii "Basic YTpi".toList)
  have hfault : mkAuthValidateUserMem (fun _ => 0) (fun _ => []) [] (ascii "Basic YTpi".toList) =
      .error .outside := by decide +kernel
  rw [hfault] at hsafe
  simp at hsafe

end Monkey.Auth
