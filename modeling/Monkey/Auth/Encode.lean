import Monkey.Auth.Decode

/-!
# Monkey.Auth.Encode

`base64_encode` with the buffer it allocates, and the way back through `base64_decode`.

The text is broken into lines of 72 characters.  The size of the buffer is reckoned in
`size_t`, where it wraps round from 2 ^ 62 bytes on.
-/

namespace Monkey.Auth

/-! ## the encoder and its buffer -/

/-- The locals of `base64_encode`: the buffer, the position in it and the length of the
line. -/
structure EncodeState where
  out : Bytes
  pos : Nat := 0
  lineLen : Nat := 0

/-- `*pos++` for each of `bs`. -/
def EncodeState.put (st : EncodeState) (bs : Bytes) : Option EncodeState :=
  (writeAt st.out st.pos bs).map fun out => { st with out, pos := st.pos + bs.length }

/-- Four characters, and the end of a line that is full. -/
def EncodeState.putGroup (st : EncodeState) (g : Bytes) : Option EncodeState :=
  (st.put g).bind fun st =>
    if 72 ≤ st.lineLen + 4 then (st.put [0x0a]).map fun st => { st with lineLen := 0 }
    else some { st with lineLen := st.lineLen + 4 }

/-- The four characters of three bytes. -/
def encodeGroup (x y z : UInt8) : Bytes :=
  [base64Char (x.toNat >>> 2), base64Char (((x.toNat &&& 0x03) <<< 4) ||| (y.toNat >>> 4)),
    base64Char (((y.toNat &&& 0x0f) <<< 2) ||| (z.toNat >>> 6)), base64Char (z.toNat &&& 0x3f)]

/-- The loop over the groups of three bytes, and the bytes that are left. -/
def base64EncodeLoop : Bytes → EncodeState → Option (EncodeState × Bytes)
  | x :: y :: z :: src, st => (st.putGroup (encodeGroup x y z)).bind fun st => base64EncodeLoop src st
  | src, st => some (st, src)

/-- The last group, if it is not full. -/
def base64EncodeTail (st : EncodeState) : Bytes → Option EncodeState
  | [x] =>
      (st.put [base64Char (x.toNat >>> 2), base64Char ((x.toNat &&& 0x03) <<< 4), base64Pad, base64Pad]).map fun st =>
        { st with lineLen := st.lineLen + 4 }
  | [x, y] =>
      (st.put [base64Char (x.toNat >>> 2), base64Char (((x.toNat &&& 0x03) <<< 4) ||| (y.toNat >>> 4)),
        base64Char ((y.toNat &&& 0x0f) <<< 2), base64Pad]).map fun st => { st with lineLen := st.lineLen + 4 }
  | _ => some st

/-- `olen` of `base64_encode`. -/
def base64Olen (len : Nat) : Nat :=
  let olen := (len * 4 % 2 ^ 64 / 3 + 4) % 2 ^ 64
  let olen := (olen + olen / 72) % 2 ^ 64
  (olen + 1) % 2 ^ 64

/-- `base64_encode`: the buffer and `*out_len`, or `NULL`.  There is no result where it
writes outside the buffer. -/
def base64Encode (junk : Nat → UInt8) (src : Bytes) : Option (Option (Bytes × Nat)) :=
  if base64Olen src.length < src.length then some none
  else
    (base64EncodeLoop src { out := newBuffer junk (base64Olen src.length) }).bind fun (st, src) =>
      (base64EncodeTail st src).bind fun st =>
        (if st.lineLen ≠ 0 then st.put [0x0a] else some st).bind fun st =>
          (writeAt st.out st.pos [0]).map fun out => some (out, st.pos)

/-! ## the text -/

/-- Characters in lines of 72, each with its line feed. -/
def base64Lines (chars : Bytes) : Bytes :=
  if _h : chars = [] then [] else chars.take 72 ++ 0x0a :: base64Lines (chars.drop 72)
termination_by chars.length
decreasing_by
  have := List.length_pos_iff.mpr _h
  rw [List.length_drop]
  omega

/-- What follows on a line of `k` characters. -/
def base64Rest (k : Nat) (chars : Bytes) : Bytes :=
  if k = 0 then base64Lines chars else chars.take (72 - k) ++ 0x0a :: base64Lines (chars.drop (72 - k))

theorem base64Rest_zero (chars : Bytes) : base64Rest 0 chars = base64Lines chars := if_pos rfl

/-- Characters that do not fill the line. -/
theorem base64Rest_group {k : Nat} {g : Bytes} (hg : g ≠ []) (hk : k + g.length < 72) (chars : Bytes) :
    base64Rest k (g ++ chars) = g ++ base64Rest (k + g.length) chars := by
  have hpos := List.length_pos_iff.mpr hg
  have hline : ∀ n, g.length < n → (g ++ chars).take n ++ 0x0a :: base64Lines ((g ++ chars).drop n) =
      g ++ (chars.take (n - g.length) ++ 0x0a :: base64Lines (chars.drop (n - g.length))) := by
    intro n hn
    rw [List.take_append, List.drop_append, List.take_of_length_le hn.le, List.drop_of_length_le hn.le,
      List.nil_append, List.append_assoc]
  have hnext : base64Rest (k + g.length) chars =
      chars.take (72 - k - g.length) ++ 0x0a :: base64Lines (chars.drop (72 - k - g.length)) := by
    rw [base64Rest, if_neg (by omega), Nat.sub_add_eq]
  rw [hnext, base64Rest]
  split
  · next hzero =>
      subst hzero
      rw [base64Lines, dif_neg (by simp [hg]), hline 72 (by omega)]
  · exact hline (72 - k) (by omega)

/-- Characters that fill it. -/
theorem base64Rest_full {k : Nat} {g : Bytes} (hg : g ≠ []) (hk : k + g.length = 72) (chars : Bytes) :
    base64Rest k (g ++ chars) = g ++ [0x0a] ++ base64Rest 0 chars := by
  have hlen : 72 - k = g.length := by omega
  have hfull : (g ++ chars).take g.length ++ 0x0a :: base64Lines ((g ++ chars).drop g.length) =
      g ++ [0x0a] ++ base64Lines chars := by
    rw [List.take_left' rfl, List.drop_left' rfl, List.append_assoc, List.singleton_append]
  rw [base64Rest_zero, base64Rest]
  split
  · next hzero =>
      subst hzero
      rw [base64Lines, dif_neg (by simp [hg]), show 72 = g.length by omega, hfull]
  · rw [hlen, hfull]

/-- The end of the last line. -/
theorem base64Rest_nil (k : Nat) : base64Rest k [] = if k ≠ 0 then [0x0a] else [] := by
  by_cases hzero : k = 0
  · simp [hzero, base64Rest, base64Lines]
  · simp [hzero, base64Rest, base64Lines]

/-- One line feed for each 72 characters, and one for what is left. -/
theorem length_base64Lines (chars : Bytes) : (base64Lines chars).length = chars.length + (chars.length + 71) / 72 := by
  induction chars using base64Lines.induct with
  | case1 => simp [base64Lines]
  | case2 chars hne ih =>
      have hpos := List.length_pos_iff.mpr hne
      rw [base64Lines, dif_neg hne, List.length_append, List.length_cons, ih, List.length_take, List.length_drop]
      omega

/-- The line feeds are skipped. -/
theorem filter_base64Lines (chars : Bytes) :
    (base64Lines chars).filter (dtable · ≠ 0x80) = chars.filter (dtable · ≠ 0x80) := by
  induction chars using base64Lines.induct with
  | case1 => simp [base64Lines]
  | case2 chars hne ih =>
      have hfeed : (0x0a :: base64Lines (chars.drop 72)).filter (dtable · ≠ 0x80) =
          (base64Lines (chars.drop 72)).filter (dtable · ≠ 0x80) := List.filter_cons_of_neg (by decide)
      rw [base64Lines, dif_neg hne, List.filter_append, hfeed, ih, ← List.filter_append, List.take_append_drop]

/-! ## the groups -/

/-- Two parts of a number of six bits. -/
theorem or_shift {a b n : Nat} (hb : b < 2 ^ n) : (a <<< n) ||| b = a * 2 ^ n + b := by
  rw [← Nat.shiftLeft_add_eq_or_of_lt hb, Nat.shiftLeft_eq]

theorem encodeGroup_eq (x y z : UInt8) : encodeGroup x y z =
    [base64Char (x.toNat / 4), base64Char (x.toNat % 4 * 16 + y.toNat / 16),
      base64Char (y.toNat % 16 * 4 + z.toNat / 64), base64Char (z.toNat % 64)] := by
  have hy := y.toNat_lt
  have hz := z.toNat_lt
  have h₃ : ∀ n : Nat, n &&& 0x03 = n % 4 := fun n => Nat.and_two_pow_sub_one_eq_mod n 2
  have h₁₅ : ∀ n : Nat, n &&& 0x0f = n % 16 := fun n => Nat.and_two_pow_sub_one_eq_mod n 4
  have h₆₃ : ∀ n : Nat, n &&& 0x3f = n % 64 := fun n => Nat.and_two_pow_sub_one_eq_mod n 6
  rw [encodeGroup, h₃, h₁₅, h₆₃, Nat.shiftRight_eq_div_pow, Nat.shiftRight_eq_div_pow, Nat.shiftRight_eq_div_pow,
    or_shift (by omega), or_shift (by omega)]
  rfl

/-- The last group, if there is one. -/
theorem base64EncodeTail_eq (st : EncodeState) {s : Bytes} (hs : s.length < 3) :
    base64EncodeTail st s =
      if s = [] then some st else (st.put (base64 s)).map fun st => { st with lineLen := st.lineLen + 4 } := by
  have h₃ : ∀ n : Nat, n &&& 0x03 = n % 4 := fun n => Nat.and_two_pow_sub_one_eq_mod n 2
  have h₁₅ : ∀ n : Nat, n &&& 0x0f = n % 16 := fun n => Nat.and_two_pow_sub_one_eq_mod n 4
  match s with
  | [] => rfl
  | [x] =>
      rw [if_neg (by simp), base64EncodeTail, base64, h₃, Nat.shiftRight_eq_div_pow, Nat.shiftLeft_eq]
  | [x, y] =>
      have hy := y.toNat_lt
      rw [if_neg (by simp), base64EncodeTail, base64, h₃, h₁₅, Nat.shiftRight_eq_div_pow, Nat.shiftRight_eq_div_pow,
        or_shift (by omega), Nat.shiftLeft_eq]
      rfl
  | _ :: _ :: _ :: _ =>
      simp only [List.length_cons] at hs
      omega

/-! ## what has been written -/

/-- The buffer of `cap` bytes starts with this text. -/
structure EncodeState.Wrote (st : EncodeState) (cap : Nat) (text : Bytes) : Prop where
  room : st.out.length = cap
  pos : st.pos = text.length
  text : st.out.take text.length = text

/-- With the characters still to come the text is `full`. -/
def EncodeState.Owes (st : EncodeState) (cap : Nat) (full chars : Bytes) : Prop :=
  ∃ text, st.Wrote cap text ∧ st.lineLen < 72 ∧ text ++ base64Rest st.lineLen chars = full

variable {st : EncodeState} {cap : Nat} {text full chars bs : Bytes}

/-- **Bytes that find room** come behind the text. -/
theorem EncodeState.Wrote.put (h : st.Wrote cap text) (hroom : (text ++ bs).length ≤ cap) :
    ∃ st', st.put bs = some st' ∧ st'.Wrote cap (text ++ bs) ∧ st'.lineLen = st.lineLen := by
  have hlen : (text ++ bs).length = text.length + bs.length := List.length_append
  have hle : st.pos + bs.length ≤ st.out.length := by rw [h.pos, h.room, ← hlen]; exact hroom
  have htake := take_fillAt (show st.pos ≤ st.out.length by omega) bs
  rw [h.pos, h.text, ← hlen, ← h.pos] at htake
  refine ⟨{ st with out := fillAt st.out st.pos bs, pos := st.pos + bs.length }, ?_, ⟨?_, ?_, htake⟩, rfl⟩
  · rw [EncodeState.put, writeAt_of_le hle, Option.map_some]
  · exact (length_fillAt hle).trans h.room
  · rw [hlen, h.pos]

/-- **A group** on its line. -/
theorem EncodeState.Owes.putGroup {g : Bytes} (h : st.Owes cap full (g ++ chars)) (hg : g.length = 4)
    (hfour : st.lineLen % 4 = 0) (hcap : full.length ≤ cap) :
    ∃ st', st.putGroup g = some st' ∧ st'.Owes cap full chars ∧ st'.lineLen % 4 = 0 := by
  obtain ⟨text, hwrote, hline, hfull⟩ := h
  have hne : g ≠ [] := by
    rintro rfl
    contradiction
  by_cases hend : st.lineLen + 4 = 72
  · rw [base64Rest_full hne (by omega), ← List.append_assoc, ← List.append_assoc] at hfull
    rw [← hfull, List.length_append, List.length_append] at hcap
    obtain ⟨st₁, hput₁, hwrote₁, hline₁⟩ := hwrote.put (show (text ++ g).length ≤ cap by omega)
    obtain ⟨st₂, hput₂, hwrote₂, -⟩ := hwrote₁.put (show (text ++ g ++ [0x0a]).length ≤ cap by
      rw [List.length_append]
      omega)
    refine ⟨{ st₂ with lineLen := 0 }, ?_, ⟨_, ⟨hwrote₂.room, hwrote₂.pos, hwrote₂.text⟩, by simp, hfull⟩, rfl⟩
    rw [EncodeState.putGroup, hput₁, Option.bind_some, if_pos (by omega), hput₂, Option.map_some]
  · rw [base64Rest_group hne (by omega), ← List.append_assoc, hg] at hfull
    rw [← hfull, List.length_append] at hcap
    obtain ⟨st₁, hput, hwrote₁, hline₁⟩ := hwrote.put (show (text ++ g).length ≤ cap by omega)
    refine ⟨{ st₁ with lineLen := st.lineLen + 4 }, ?_,
      ⟨_, ⟨hwrote₁.room, hwrote₁.pos, hwrote₁.text⟩, by dsimp only; omega, hfull⟩, by dsimp only; omega⟩
    rw [EncodeState.putGroup, hput, Option.bind_some, if_neg (by omega), hline₁]

/-- **The groups** of a text. -/
theorem EncodeState.Owes.loop (src : Bytes) (h : st.Owes cap full (base64 src)) (hfour : st.lineLen % 4 = 0)
    (hcap : full.length ≤ cap) :
    ∃ st' s, base64EncodeLoop src st = some (st', s) ∧ s.length < 3 ∧ st'.Owes cap full (base64 s) ∧
      st'.lineLen % 4 = 0 := by
  fun_induction base64EncodeLoop src st with
  | case1 x y z src st ih =>
      have hgroup : base64 (x :: y :: z :: src) = encodeGroup x y z ++ base64 src := by
        rw [encodeGroup_eq]
        rfl
      rw [hgroup] at h
      obtain ⟨st₁, hput, howes, hfour₁⟩ := h.putGroup rfl hfour hcap
      obtain ⟨st', s, hloop, hrest⟩ := ih st₁ howes hfour₁
      exact ⟨st', s, by rw [hput, Option.bind_some, hloop], hrest⟩
  | case2 src st hshort =>
      refine ⟨st, src, rfl, ?_, h, hfour⟩
      match src with
      | [] => simp
      | [_] => simp
      | [_, _] => simp
      | x :: y :: z :: s => exact absurd rfl (hshort x y z s)

/-- **The last group** and the end of its line. -/
theorem EncodeState.Owes.tail {s : Bytes} (hs : s.length < 3) (h : st.Owes cap full (base64 s))
    (hfour : st.lineLen % 4 = 0) (hcap : full.length ≤ cap) :
    ∃ st', ((base64EncodeTail st s).bind fun st => if st.lineLen ≠ 0 then st.put [0x0a] else some st) = some st' ∧
      st'.Wrote cap full := by
  obtain ⟨text, hwrote, hline, hfull⟩ := h
  rw [base64EncodeTail_eq st hs]
  by_cases hnil : s = []
  · subst hnil
    rw [if_pos rfl, Option.bind_some]
    rw [base64, base64Rest_nil] at hfull
    split at hfull
    · next hpos =>
        obtain ⟨st', hput, hwrote', -⟩ := hwrote.put (show (text ++ [0x0a]).length ≤ cap by rw [hfull]; exact hcap)
        rw [if_pos hpos, hput, ← hfull]
        exact ⟨st', rfl, hwrote'⟩
    · next hzero =>
        rw [if_neg hzero, ← hfull, List.append_nil]
        exact ⟨st, rfl, hwrote⟩
  · have hpos := List.length_pos_iff.mpr hnil
    have hlen : (base64 s).length = 4 := by
      rw [base64_length]
      omega
    have hne : base64 s ≠ [] := List.ne_nil_of_length_pos (by omega)
    have hend : text ++ base64 s ++ [0x0a] = full := by
      rw [← hfull, ← List.append_nil (base64 s)]
      by_cases hline72 : st.lineLen + 4 = 72
      · rw [base64Rest_full hne (by omega), base64Rest_nil]
        simp
      · rw [base64Rest_group hne (by omega), base64Rest_nil, if_pos (by omega)]
        simp
    rw [← hend, List.length_append] at hcap
    obtain ⟨st₁, hput₁, hwrote₁, hline₁⟩ := hwrote.put (show (text ++ base64 s).length ≤ cap by omega)
    have hwrote₂ : ({ st₁ with lineLen := st₁.lineLen + 4 } : EncodeState).Wrote cap (text ++ base64 s) :=
      ⟨hwrote₁.room, hwrote₁.pos, hwrote₁.text⟩
    obtain ⟨st', hput, hwrote', -⟩ := hwrote₂.put (show (text ++ base64 s ++ [0x0a]).length ≤ cap by
      rw [List.length_append]
      exact hcap)
    rw [if_neg hnil, hput₁, Option.map_some, Option.bind_some, if_pos (by dsimp only; omega), hput, ← hend]
    exact ⟨st', rfl, hwrote'⟩

/-! ## the whole text -/

/-- Only the product wraps round. -/
theorem base64Olen_eq (len : Nat) :
    base64Olen len = len * 4 % 2 ^ 64 / 3 + 4 + (len * 4 % 2 ^ 64 / 3 + 4) / 72 + 1 := by
  have hlt : len * 4 % 2 ^ 64 < 2 ^ 64 := Nat.mod_lt _ (by decide)
  unfold base64Olen
  generalize len * 4 % 2 ^ 64 = n at hlt ⊢
  dsimp only
  rw [Nat.mod_eq_of_lt (show n / 3 + 4 < 2 ^ 64 by omega),
    Nat.mod_eq_of_lt (show n / 3 + 4 + (n / 3 + 4) / 72 < 2 ^ 64 by omega), Nat.mod_eq_of_lt (by omega)]

/-- The text and its NUL fit in what is allocated for it, up to where the size wraps round. -/
theorem length_base64Lines_lt {len : Nat} (h : len < 2 ^ 62) (hsrc : bs.length = len) :
    (base64Lines (base64 bs)).length < base64Olen len := by
  rw [length_base64Lines, base64_length, hsrc, base64Olen_eq]
  omega

/-- From there on the size is less than the text, and the call is refused. -/
theorem base64Olen_lt_iff {len : Nat} (h : len < 2 ^ 64) : base64Olen len < len ↔ 2 ^ 62 ≤ len := by
  rw [base64Olen_eq]
  omega

/-- **The encoder and the way back.**  A text of less than 2 ^ 62 bytes is encoded inside the
buffer allocated for it, a NUL behind it, and `base64_decode` gives back the text, if it is
not empty; a longer text is refused. -/
theorem base64Encode_roundTrip (junk : Nat → UInt8) {src : Bytes} (hsize : src.length < 2 ^ 64) :
    (2 ^ 62 ≤ src.length → base64Encode junk src = some none) ∧
    (src.length < 2 ^ 62 → ∃ out n, base64Encode junk src = some (some (out, n)) ∧ n < out.length ∧ out[n]? = some 0 ∧
      (src ≠ [] → ∃ text, base64DecodeBuffer junk (out.take n) = some (some (text, src.length)) ∧
        text.take src.length = src)) := by
  refine ⟨fun hbig => ?_, fun hsmall => ?_⟩
  · rw [base64Encode, if_pos ((base64Olen_lt_iff hsize).mpr hbig)]
  · have hlt := length_base64Lines_lt hsmall rfl
    have hstart : ({ out := newBuffer junk (base64Olen src.length) } : EncodeState).Owes (base64Olen src.length)
        (base64Lines (base64 src)) (base64 src) :=
      ⟨[], ⟨length_newBuffer .., rfl, rfl⟩, Nat.zero_lt_succ 71, base64Rest_zero _⟩
    obtain ⟨st₁, s, hloop, hs, howes, hfour⟩ := hstart.loop src rfl hlt.le
    obtain ⟨st₂, htail, hwrote⟩ := howes.tail hs hfour hlt.le
    have hroom : st₂.pos + ([0] : Bytes).length ≤ st₂.out.length := by
      rw [hwrote.pos, hwrote.room]
      exact hlt
    have htake := take_fillAt (show st₂.pos ≤ st₂.out.length by omega) [0]
    have htext : (fillAt st₂.out st₂.pos [0]).take st₂.pos = base64Lines (base64 src) := by
      have hfirst := congrArg (List.take st₂.pos) htake
      rw [List.take_take, Nat.min_eq_left (by omega), List.take_left' (List.length_take_of_le (by omega))] at hfirst
      rw [hfirst, hwrote.pos, hwrote.text]
    refine ⟨fillAt st₂.out st₂.pos [0], st₂.pos, ?_, ?_, ?_, fun hne => ?_⟩
    · rw [base64Encode, if_neg (by rw [base64Olen_lt_iff hsize]; omega), hloop, Option.bind_some]
      dsimp only
      rw [← Option.bind_assoc, htail, Option.bind_some, writeAt_of_le hroom, Option.map_some]
    · rw [length_fillAt hroom]
      exact hroom
    · have hlast := congrArg (fun l : Bytes => l[st₂.pos]?) htake
      have hlen : (st₂.out.take st₂.pos).length = st₂.pos := List.length_take_of_le (by omega)
      simpa [List.getElem?_take, List.getElem?_append_right, hlen] using hlast
    · obtain ⟨text, hdecode, -, hfront⟩ := base64DecodeBuffer_spec junk ((fillAt st₂.out st₂.pos [0]).take st₂.pos)
      have hback : base64Decode ((fillAt st₂.out st₂.pos [0]).take st₂.pos) = some src := by
        rw [htext, ← base64Decode_base64 hne, base64Decode, base64Decode, filter_base64Lines]
      rw [hback] at hdecode hfront
      exact ⟨text, hdecode, (hfront src rfl).2⟩

/-- A text of four bytes. -/
theorem base64Encode_roundTrip_four : ∃ out n, base64Encode (fun _ => 1) (ascii "a:bc".toList) = some (some (out, n)) ∧
    n < out.length ∧ out[n]? = some 0 ∧ ∃ text, base64DecodeBuffer (fun _ => 1) (out.take n) = some (some (text, 4)) ∧
      text.take 4 = ascii "a:bc".toList := by
  obtain ⟨out, n, hencode, hn, hnul, hback⟩ :=
    (base64Encode_roundTrip (fun _ => 1) (show (ascii "a:bc".toList).length < 2 ^ 64 by decide)).2 (by decide)
  exact ⟨out, n, hencode, hn, hnul, hback (by decide)⟩

end Monkey.Auth
