import Monkey.Lib.PercentCoding
import Monkey.Lib.Tokens
import Monkey.Strings

/-!
# Monkey.Http.Decode

`mk_utils_url_decode`: what it makes of a URI, and where it writes.

The copy has as many bytes as the URI.  There is room for its NUL as soon as one sequence
is decoded, and the first `%` is decoded, or refused, unless it is one of the last two
characters.
-/

namespace Monkey

/-! ## the digits -/

/-- One digit of `mk_utils_hex2int`. -/
theorem mkUtilsHex2int_cons (c : UInt8) (s : Bytes) (res : Int) :
    mkUtilsHex2int (c :: s) res =
      (hexDigitValue c).elim (-1) fun m => mkUtilsHex2int s (res * 16 + m) := by
  rw [mkUtilsHex2int, hexDigitValue]
  simp only [UInt8.le_iff_toNat_le, UInt8.reduceToNat]
  by_cases hlower : 97 ≤ c.toNat ∧ c.toNat ≤ 102
  · rw [if_pos hlower, if_neg (by omega), if_pos hlower, Option.elim_some]
    congr 2
    omega
  · rw [if_neg hlower]
    by_cases hupper : 65 ≤ c.toNat ∧ c.toNat ≤ 70
    · rw [if_pos hupper, if_neg (by omega), if_neg hlower, if_pos hupper, Option.elim_some]
      congr 2
      omega
    · rw [if_neg hupper]
      by_cases hdigit : 48 ≤ c.toNat ∧ c.toNat ≤ 57
      · rw [if_pos hdigit, if_pos hdigit, Option.elim_some]
        congr 2
        omega
      · rw [if_neg hdigit, if_neg hdigit, if_neg hlower, if_neg hupper, Option.elim_none]

theorem mkUtilsHex2int_digits {c d : UInt8} {m n : Nat} (hc : hexDigitValue c = some m)
    (hd : hexDigitValue d = some n) : mkUtilsHex2int [c, d] 0 = (16 * m + n : Nat) := by
  rw [mkUtilsHex2int_cons, hc, Option.elim_some, mkUtilsHex2int_cons, hd, Option.elim_some, mkUtilsHex2int]
  omega

theorem mkUtilsHex2int_bad {c d : UInt8} (h : ¬ (isxdigit c = true ∧ isxdigit d = true)) :
    mkUtilsHex2int [c, d] 0 = -1 := by
  rw [mkUtilsHex2int_cons]
  cases hc : hexDigitValue c with
  | none => rfl
  | some m =>
      rw [Option.elim_some, mkUtilsHex2int_cons]
      cases hd : hexDigitValue d with
      | none => rfl
      | some n => exact absurd ⟨isxdigit_iff.mpr ⟨m, hc⟩, isxdigit_iff.mpr ⟨n, hd⟩⟩ h

/-! ## the decoded bytes -/

/-- The loop gives what the text stands for. -/
theorem mkUtilsUrlDecodeLoop_decodes {s : Bytes} (h0 : 0 ∉ s) :
    ∀ t, mkUtilsUrlDecodeLoop s = some t → Decodes s t := by
  fun_induction mkUtilsUrlDecodeLoop s with
  | case1 =>
      intro t h
      obtain rfl := Option.some.inj h
      exact .nil
  | case2 c =>
      intro t h
      obtain rfl := Option.some.inj h
      exact .plain (.inr (Nat.zero_lt_succ _)) .nil
  | case3 c d =>
      intro t h
      obtain rfl := Option.some.inj h
      exact .plain (.inr (Nat.lt_succ_self _)) (.plain (.inr (Nat.zero_lt_succ _)) .nil)
  | case4 =>
      intro t h
      contradiction
  | case5 d e s hex hgood ih =>
      intro t h
      obtain ⟨t', ht', rfl⟩ := Option.map_eq_some_iff.mp h
      simp only [List.mem_cons, not_or] at h0
      have hpair : cstr [d, e] = [d, e] := cstr_eq_self (by simp [h0.2.1, h0.2.2.1])
      have hdigits : isxdigit d = true ∧ isxdigit e = true := by
        by_contra hbad
        exact hgood (by rw [show hex = mkUtilsHex2int (cstr [d, e]) 0 from rfl, hpair, mkUtilsHex2int_bad hbad])
      obtain ⟨m, hm⟩ := isxdigit_iff.mp hdigits.1
      obtain ⟨n, hn⟩ := isxdigit_iff.mp hdigits.2
      rw [show hex = mkUtilsHex2int (cstr [d, e]) 0 from rfl, hpair, mkUtilsHex2int_digits hm hn, Int.toNat_natCast]
      exact .escape hm hn (ih h0.2.2.2 t' ht')
  | case6 c d e s hc ih =>
      intro t h
      obtain ⟨t', ht', rfl⟩ := Option.map_eq_some_iff.mp h
      exact .plain (.inl hc) (ih (fun hmem => h0 (List.mem_cons_of_mem c hmem)) t' ht')

/-- The loop refuses malformed texts only. -/
theorem mkUtilsUrlDecodeLoop_malformed {s : Bytes} (h0 : 0 ∉ s) (h : mkUtilsUrlDecodeLoop s = none) :
    Malformed s := by
  fun_induction mkUtilsUrlDecodeLoop s with
  | case1 => contradiction
  | case2 => contradiction
  | case3 => contradiction
  | case4 d e s hex hbad =>
      simp only [List.mem_cons, not_or] at h0
      have hpair : cstr [d, e] = [d, e] := cstr_eq_self (by simp [h0.2.1, h0.2.2.1])
      refine malformed_escape.mpr (.inl fun hdigits => ?_)
      obtain ⟨m, hm⟩ := isxdigit_iff.mp hdigits.1
      obtain ⟨n, hn⟩ := isxdigit_iff.mp hdigits.2
      rw [show hex = mkUtilsHex2int (cstr [d, e]) 0 from rfl, hpair, mkUtilsHex2int_digits hm hn] at hbad
      omega
  | case5 d e s hex hgood ih =>
      simp only [List.mem_cons, not_or] at h0
      exact malformed_escape.mpr (.inr (ih h0.2.2.2 (Option.map_eq_none_iff.mp h)))
  | case6 c d e s hc ih =>
      exact (ih (fun hmem => h0 (List.mem_cons_of_mem c hmem)) (Option.map_eq_none_iff.mp h)).cons c

/-- **The loop** is the decoding. -/
theorem mkUtilsUrlDecodeLoop_eq_some_iff {s : Bytes} (h0 : 0 ∉ s) (t : Bytes) :
    mkUtilsUrlDecodeLoop s = some t ↔ Decodes s t := by
  refine ⟨mkUtilsUrlDecodeLoop_decodes h0 t, fun h => ?_⟩
  cases hloop : mkUtilsUrlDecodeLoop s with
  | none => exact absurd (mkUtilsUrlDecodeLoop_malformed h0 hloop) h.not_malformed
  | some t' => rw [(mkUtilsUrlDecodeLoop_decodes h0 t' hloop).unique h]

theorem mkUtilsUrlDecodeLoop_eq_none_iff {s : Bytes} (h0 : 0 ∉ s) :
    mkUtilsUrlDecodeLoop s = none ↔ Malformed s := by
  refine ⟨mkUtilsUrlDecodeLoop_malformed h0, fun h => ?_⟩
  cases hloop : mkUtilsUrlDecodeLoop s with
  | none => rfl
  | some t => exact absurd h (mkUtilsUrlDecodeLoop_decodes h0 t hloop).not_malformed

/-! ## the URI -/

/-- A URI of a request: its bytes, in front of the rest of the buffer. -/
def uriOf (s rest : Bytes) : MkPointer := ⟨some (s ++ rest), s.length⟩

theorem uriOf_text (s rest : Bytes) : (uriOf s rest).text = s := List.take_left

/-- The search for a `%`. -/
theorem mkStringCharSearch_uriOf {s : Bytes} (rest : Bytes) (c : UInt8) (hlen : s.length < 2 ^ 31) :
    mkStringCharSearch (s ++ rest) c (toInt s.length) = position (s.findIdx? (· == c)) := by
  rw [mkStringCharSearch, toInt_eq_self (by omega) (by omega), if_neg (by omega), Int.toNat_natCast, memchr, List.take_left]

theorem position_neg_iff {p : Option Nat} : position p < 0 ↔ p = none := by
  cases p with
  | none => exact ⟨fun _ => rfl, fun _ => by decide⟩
  | some p => exact ⟨fun h => absurd h (by simp [position]), fun h => by contradiction⟩

theorem mkUtilsUrlDecode_uriOf {s : Bytes} (rest : Bytes) (hlen : s.length < 2 ^ 31) :
    mkUtilsUrlDecode (uriOf s rest) = if percent ∈ s then
      (mkUtilsUrlDecodeLoop s).map fun t => t ++ List.replicate (s.length - t.length) 0 else none := by
  have hsearch : mkStringCharSearch ((uriOf s rest).data.getD []) percent (toInt (uriOf s rest).len) < 0 ↔
      percent ∉ s := by
    rw [show (uriOf s rest).data.getD [] = s ++ rest from rfl, show (uriOf s rest).len = s.length from rfl,
      mkStringCharSearch_uriOf rest percent hlen, position_neg_iff, List.findIdx?_eq_none_iff]
    simp only [beq_eq_false_iff_ne]
    exact ⟨fun h hmem => h percent hmem rfl, fun h c hc heq => h (heq ▸ hc)⟩
  rw [mkUtilsUrlDecode, uriOf_text]
  change (if mkStringCharSearch _ percent _ < 0 then none else _) = _
  by_cases hmem : percent ∈ s
  · rw [if_neg (fun h => hsearch.mp h hmem), if_pos hmem]
    rfl
  · rw [if_pos (hsearch.mpr hmem), if_neg hmem]

theorem cstr_padded {t : Bytes} (h0 : 0 ∉ t) (n : Nat) : cstr (t ++ List.replicate n 0) = t := by
  have hzeros : cstr (List.replicate n 0) = [] := by
    cases n <;> rfl
  rw [cstr_append h0, hzeros, List.append_nil]

/-- **Decoding**: there is no result exactly for a URI without a `%` and for a malformed
one, the result is what the URI stands for, and every spelling of a path with a `%` in it
gives the path. -/
theorem url_decode_exact {s : Bytes} (rest : Bytes) (h0 : 0 ∉ s) (hlen : s.length < 2 ^ 31) :
    (mkUtilsUrlDecode (uriOf s rest) = none ↔ percent ∉ s ∨ Malformed s) ∧
      (∀ buf, mkUtilsUrlDecode (uriOf s rest) = some buf →
        ∃ t, Decodes s t ∧ buf = t ++ List.replicate (s.length - t.length) 0) ∧
      ∀ path, 0 ∉ path → Spells path s → percent ∈ s →
        ∃ buf, mkUtilsUrlDecode (uriOf s rest) = some buf ∧ cstr buf = path := by
  rw [mkUtilsUrlDecode_uriOf rest hlen]
  refine ⟨?_, ?_, ?_⟩
  · by_cases hmem : percent ∈ s
    · rw [if_pos hmem, Option.map_eq_none_iff, mkUtilsUrlDecodeLoop_eq_none_iff h0]
      exact ⟨.inr, fun h => h.resolve_left (not_not.mpr hmem)⟩
    · rw [if_neg hmem]
      exact ⟨fun _ => .inl hmem, fun _ => rfl⟩
  · intro buf hbuf
    split at hbuf
    · obtain ⟨t, ht, rfl⟩ := Option.map_eq_some_iff.mp hbuf
      exact ⟨t, (mkUtilsUrlDecodeLoop_eq_some_iff h0 t).mp ht, rfl⟩
    · contradiction
  · intro path hpath hspells hmem
    refine ⟨path ++ List.replicate (s.length - path.length) 0, ?_, cstr_padded hpath _⟩
    rw [if_pos hmem, (mkUtilsUrlDecodeLoop_eq_some_iff h0 path).mpr hspells.decodes]
    rfl

/-- A blank in lower case digits, and a `%` at the end that stands for itself. -/
theorem url_decode_blank : ∃ buf,
    mkUtilsUrlDecode (uriOf (ascii "/a%2fb%25%7E".toList) (ascii " HTTP/1.1".toList)) = some buf ∧
      cstr buf = ascii "/a/b%~".toList := by
  refine (url_decode_exact (ascii " HTTP/1.1".toList) (by decide) (by decide)).2.2 _ (by decide) ?_ (by decide)
  exact .plain (by decide) (.plain (by decide) (.escape rfl rfl (.plain (by decide) (.escape rfl rfl
    (.escape rfl rfl .nil)))))

/-! ## the buffer -/

/-- What is accessed: a byte of the URI, or a byte of the buffer. -/
inductive UrlTouch
  | read (i : Nat)
  | write (i : Nat)
deriving DecidableEq, Repr

def UrlTouch.index : UrlTouch → Nat
  | .read i => i
  | .write i => i

/-- The loop of `mk_utils_url_decode` on the rest of the URI from `i` on, with `j` bytes
written; the NUL is written behind them. -/
def urlDecodeLoopTouches : Bytes → Nat → Nat → List UrlTouch
  | [], _, j => [.write j]
  | [_], i, j => [.read i, .write j, .write (j + 1)]
  | [_, _], i, j => [.read i, .write j, .read (i + 1), .write (j + 1), .write (j + 2)]
  | c :: d :: e :: s, i, j =>
      if c = 0x25 then
        -- `strncpy` of two characters stops behind a NUL
        let digits := if d = 0 then [.read (i + 1)] else [.read (i + 1), .read (i + 2)]
        .read i :: (digits ++
          if mkUtilsHex2int (cstr [d, e]) 0 = -1 then [] else .write j :: urlDecodeLoopTouches s (i + 3) (j + 1))
      else .read i :: .write j :: urlDecodeLoopTouches (d :: e :: s) (i + 1) (j + 1)

/-- `mk_utils_url_decode`: the search for a `%`, the bytes before it, and the loop. -/
def mkUtilsUrlDecodeTouches (uri : MkPointer) : List UrlTouch :=
  let tmp := mkStringCharSearch (uri.data.getD []) 0x25 (toInt uri.len)
  if tmp < 0 then (List.range uri.len).map .read
  else
    let first := tmp.toNat
    (List.range (first + 1)).map .read ++ ((List.range first).map .read ++ ((List.range first).map .write ++
      urlDecodeLoopTouches (uri.text.drop first) first first))

/-- Every access is to one of `n` bytes. -/
def Within (n : Nat) (touches : List UrlTouch) : Prop := ∀ t ∈ touches, t.index < n

theorem within_cons {n : Nat} {t : UrlTouch} {ts : List UrlTouch} :
    Within n (t :: ts) ↔ t.index < n ∧ Within n ts := List.forall_mem_cons

theorem within_append {n : Nat} {ts ts' : List UrlTouch} :
    Within n (ts ++ ts') ↔ Within n ts ∧ Within n ts' := List.forall_mem_append

theorem within_range {n k : Nat} (f : Nat → UrlTouch) (hf : ∀ i, (f i).index = i) (h : k ≤ n) :
    Within n ((List.range k).map f) := by
  intro t ht
  obtain ⟨i, hi, rfl⟩ := List.mem_map.mp ht
  rw [hf]
  exact (List.mem_range.mp hi).trans_le h

/-- A sequence with both digits: after it there is room. -/
theorem within_escape {s : Bytes} (d e : UInt8) {i j : Nat} (hj : j ≤ i)
    (hrest : Within (i + 3 + s.length) (urlDecodeLoopTouches s (i + 3) (j + 1))) :
    Within (i + (percent :: d :: e :: s).length) (urlDecodeLoopTouches (percent :: d :: e :: s) i j) := by
  have hlen : i + (percent :: d :: e :: s).length = i + 3 + s.length := by
    simp only [List.length_cons]
    omega
  rw [hlen, urlDecodeLoopTouches, if_pos (show percent = 0x25 from rfl), within_cons, within_append]
  refine ⟨?_, ?_, ?_⟩
  · simp only [UrlTouch.index]
    omega
  · split
    · rw [within_cons]
      simp only [UrlTouch.index]
      exact ⟨by omega, by rintro _ ⟨⟩⟩
    · rw [within_cons, within_cons]
      simp only [UrlTouch.index]
      exact ⟨by omega, by omega, by rintro _ ⟨⟩⟩
  · split
    · rintro _ ⟨⟩
    · rw [within_cons]
      simp only [UrlTouch.index]
      exact ⟨by omega, hrest⟩

/-- Once a sequence is decoded there is room for the NUL. -/
theorem urlDecodeLoopTouches_within {s : Bytes} {i j : Nat} (hj : j < i) :
    Within (i + s.length) (urlDecodeLoopTouches s i j) := by
  fun_induction urlDecodeLoopTouches s i j with
  | case1 i j => simpa [Within, UrlTouch.index] using hj
  | case2 i j c =>
      simp only [within_cons, UrlTouch.index, List.length_cons, List.length_nil]
      exact ⟨by omega, by omega, by omega, by rintro _ ⟨⟩⟩
  | case3 i j c d =>
      simp only [within_cons, UrlTouch.index, List.length_cons, List.length_nil]
      exact ⟨by omega, by omega, by omega, by omega, by omega, by rintro _ ⟨⟩⟩
  | case4 d e s i j digits ih =>
      have hescape := within_escape d e hj.le (ih (by omega))
      rwa [urlDecodeLoopTouches, if_pos (show percent = 0x25 from rfl)] at hescape
  | case5 c d e s i j hc ih =>
      have hrest := ih (by omega)
      rw [show i + 1 + (d :: e :: s).length = i + (c :: d :: e :: s).length by
        simp only [List.length_cons]; omega] at hrest
      simp only [within_cons, UrlTouch.index]
      refine ⟨?_, ?_, hrest⟩
      · simp only [List.length_cons]
        omega
      · simp only [List.length_cons]
        omega

/-- Without room for a sequence nothing is decoded, and the NUL is written behind the
buffer. -/
theorem urlDecodeLoopTouches_overflow {after : Bytes} (h : after.length < 2) (i : Nat) :
    UrlTouch.write (i + (percent :: after).length) ∈ urlDecodeLoopTouches (percent :: after) i i := by
  match after, h with
  | [], _ => simp [urlDecodeLoopTouches]
  | [d], _ => simp [urlDecodeLoopTouches]

/-- What is accessed for a URI with a `%`. -/
theorem mkUtilsUrlDecodeTouches_within_iff {before after : Bytes} (rest : Bytes) (hb : percent ∉ before)
    (hlen : (before ++ percent :: after).length < 2 ^ 31) :
    Within (before ++ percent :: after).length (mkUtilsUrlDecodeTouches (uriOf (before ++ percent :: after) rest)) ↔
      2 ≤ after.length := by
  have hsearch : mkStringCharSearch ((uriOf (before ++ percent :: after) rest).data.getD []) 0x25
      (toInt (uriOf (before ++ percent :: after) rest).len) = (before.length : Int) := by
    refine (mkStringCharSearch_uriOf rest percent hlen).trans ?_
    rw [findIdx?_append_cons hb]
    rfl
  have hle : before.length + 1 ≤ (before ++ percent :: after).length := by
    rw [List.length_append, List.length_cons]
    omega
  unfold mkUtilsUrlDecodeTouches
  simp only [hsearch]
  rw [if_neg (by omega), Int.toNat_natCast, uriOf_text, List.drop_left, within_append, within_append, within_append,
    List.length_append]
  rw [List.length_append] at hle
  constructor
  · rintro ⟨-, -, -, hloop⟩
    by_contra hshort
    have hover := hloop _ (urlDecodeLoopTouches_overflow (not_le.mp hshort) before.length)
    simp only [UrlTouch.index] at hover
    omega
  · intro hroom
    refine ⟨within_range _ (fun _ => rfl) hle, within_range _ (fun _ => rfl) (by omega),
      within_range _ (fun _ => rfl) (by omega), ?_⟩
    cases after with
    | nil => exact absurd hroom (by decide)
    | cons d after =>
        cases after with
        | nil => exact absurd hroom (by simp)
        | cons e s => exact within_escape d e le_rfl (urlDecodeLoopTouches_within (by omega))

/-- **The buffer**: the decoding stays inside the URI and its copy exactly if the first `%`,
if there is one, has two characters after it. -/
theorem url_decode_within_iff {s : Bytes} (rest : Bytes) (hlen : s.length < 2 ^ 31) :
    Within s.length (mkUtilsUrlDecodeTouches (uriOf s rest)) ↔
      ∀ before after, s = before ++ percent :: after → percent ∉ before → 2 ≤ after.length := by
  by_cases hmem : percent ∈ s
  · obtain ⟨before, after, rfl, hb⟩ := List.eq_append_cons_of_mem hmem
    rw [mkUtilsUrlDecodeTouches_within_iff rest hb hlen]
    refine ⟨fun h before' after' heq hb' => ?_, fun h => h before after rfl hb⟩
    have hfirst := findIdx?_append_cons hb after
    rw [heq, findIdx?_append_cons hb'] at hfirst
    have hlength := congrArg List.length heq
    simp only [List.length_append, List.length_cons] at hlength
    have := Option.some.inj hfirst
    omega
  · refine ⟨fun _ before after heq => absurd (heq ▸ by simp) hmem, fun _ => ?_⟩
    have hnone : ¬ 0 ≤ mkStringCharSearch ((uriOf s rest).data.getD []) 0x25 (toInt (uriOf s rest).len) := by
      rw [not_le]
      refine (congrArg (· < 0) (mkStringCharSearch_uriOf rest percent hlen)).mpr ?_
      exact position_neg_iff.mpr (findIdx?_eq_none hmem)
    unfold mkUtilsUrlDecodeTouches
    simp only
    rw [if_pos (not_le.mp hnone)]
    exact within_range _ (fun _ => rfl) le_rfl

theorem url_decode_within_blank :
    Within 6 (mkUtilsUrlDecodeTouches (uriOf (ascii "/a%20%".toList) (ascii " HTTP/1.1".toList))) := by
  refine (url_decode_within_iff (ascii " HTTP/1.1".toList) (by decide)).mpr fun before after heq hb => ?_
  have hfirst := findIdx?_append_cons hb after
  rw [← heq] at hfirst
  have hlength := congrArg List.length heq
  simp only [List.length_append, List.length_cons] at hlength
  have hat : before.length = 2 := (Option.some.inj hfirst).symm
  have htotal : (ascii "/a%20%".toList).length = 6 := rfl
  omega

/-- A `%` at the end of the URI: the NUL is written behind the buffer. -/
theorem not_url_decode_within : ¬ ∀ (s rest : Bytes), 1 ≤ s.length → s.length < 2 ^ 31 →
    Within s.length (mkUtilsUrlDecodeTouches (uriOf s rest)) := by
  intro hall
  have hwithin := hall (ascii "/%".toList) (ascii " HTTP/1.1".toList) (by decide) (by decide)
  exact absurd (hwithin (.write 2) (by decide +kernel)) (by decide)

end Monkey
