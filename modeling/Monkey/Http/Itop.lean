import Monkey.Lib.Block
import Monkey.Lib.CInt
import Monkey.Lib.Decimal
import Monkey.Http.Header

/-!
# Monkey.Http.Itop

`mk_string_itop` writes the value of `Content-Length` into a buffer of the thread: the
digits in reverse, then the string is turned around in place and ended by CRLF.  It takes
an `int`, so that the `long` it is given is printed as it is only below `2 ^ 31`.
-/

namespace Monkey

/-- `MK_UTILS_INT2MKP_BUFFER_LEN`, the size of the buffer `mk_cache_header_cl`. -/
def mkUtilsInt2mkpBufferLen : Nat := 16

/-! ## the conversion -/

/-- The loop that writes the digits, the lowest one first; with the place after the last. -/
def itopDigits (data : Bytes) (wstr uvalue : Nat) : Option (Bytes × Nat) := do
  let data ← writeAt data wstr [UInt8.ofNat (48 + uvalue % 10)]
  if _h : uvalue / 10 = 0 then some (data, wstr + 1) else itopDigits data (wstr + 1) (uvalue / 10)
termination_by uvalue

/-- The loop that swaps `*begin` and `*end` until they meet. -/
def itopReverse (data : Bytes) (first last : Nat) : Option Bytes :=
  if first < last then do
    let aux ← readAt data last 1
    let c ← readAt data first 1
    let data ← writeAt data last c
    let data ← writeAt data first aux
    itopReverse data (first + 1) (last - 1)
  else some data
termination_by last - first

/-- The digits and the sign behind them. -/
def itopSigned (value : Int) (data : Bytes) : Option (Bytes × Nat) := do
  let uvalue := ((if value < 0 then -value else value) % 2 ^ 32).toNat
  let (data, wstr) ← itopDigits data 0 uvalue
  if value < 0 then (writeAt data wstr [0x2d]).map fun data => (data, wstr + 1)
  else some (data, wstr)

/-- `mk_string_itop` on the buffer of the pointer: the buffer after it, and `p->len`. -/
def mkStringItop (value : Int) (data : Bytes) : Option (Bytes × Nat) := do
  let (data, wstr) ← itopSigned value data
  let data ← writeAt data wstr [0]
  let data ← itopReverse data 0 (wstr - 1)
  let data ← writeAt data wstr [0x0d]
  let data ← writeAt data (wstr + 1) [0x0a]
  let data ← writeAt data (wstr + 2) [0]
  some (data, wstr + 3 - 1)

/-- The digits of a number replace as many bytes. -/
theorem itopDigits_eq (u : Nat) (pre old post : Bytes) (hold : old.length = (decimal u).length) :
    itopDigits (pre ++ old ++ post) pre.length u =
      some (pre ++ (decimal u).reverse ++ post, pre.length + (decimal u).length) := by
  induction u using Nat.strongRecOn generalizing pre old with
  | ind u ih =>
      rw [itopDigits]
      rcases lt_or_ge u 10 with hu | hu
      · rw [decimal_of_lt hu] at hold ⊢
        rw [writeAt_middle pre old post (by simpa using hold.symm)]
        simp [Nat.div_eq_of_lt hu, Nat.mod_eq_of_lt hu, decimalDigit]
      · rw [decimal_of_le hu, List.length_append] at hold
        obtain ⟨o, old, rfl⟩ := List.exists_cons_of_length_eq_add_one hold
        have hold' : old.length = (decimal (u / 10)).length := by simpa using hold
        have hrest := ih (u / 10) (Nat.div_lt_self (by omega) (by decide))
          (pre ++ [UInt8.ofNat (48 + u % 10)]) old hold'
        have hdiv : u / 10 ≠ 0 := by omega
        rw [show pre ++ o :: old ++ post = pre ++ [o] ++ (old ++ post) by simp,
          writeAt_middle pre [o] (old ++ post) (by rfl)]
        simp only [Option.bind_eq_bind, Option.bind_some, hdiv, dite_false]
        rw [← List.append_assoc, show pre.length + 1 = (pre ++ [UInt8.ofNat (48 + u % 10)]).length by simp,
          hrest, decimal_of_le hu]
        simp [decimalDigit, Nat.add_assoc, Nat.add_comm 1]

/-- The bytes between the two positions are turned around. -/
theorem itopReverse_eq (pre mid post : Bytes) :
    itopReverse (pre ++ mid ++ post) pre.length (pre.length + mid.length - 1) =
      some (pre ++ mid.reverse ++ post) := by
  induction mid using List.bidirectionalRec generalizing pre post with
  | nil =>
      rw [itopReverse, if_neg (by simp)]
      rfl
  | singleton c =>
      rw [itopReverse, if_neg (by simp)]
      rfl
  | cons_append c mid d ih =>
      have hlast : pre.length + (c :: (mid ++ [d])).length - 1 = (pre ++ c :: mid).length := by
        simp
      have hinner := ih (pre ++ [d]) (c :: post)
      rw [itopReverse, if_pos (by simp), hlast,
        show pre ++ c :: (mid ++ [d]) ++ post = pre ++ c :: mid ++ [d] ++ post by simp,
        show (1 : Nat) = [d].length from rfl, readAt_middle]
      simp only [Option.bind_eq_bind, Option.bind_some]
      rw [show pre ++ c :: mid ++ [d] ++ post = pre ++ [c] ++ (mid ++ [d] ++ post) by simp,
        show [d].length = [c].length from rfl, readAt_middle]
      simp only [Option.bind_some]
      rw [show pre ++ [c] ++ (mid ++ [d] ++ post) = pre ++ c :: mid ++ [d] ++ post by simp,
        writeAt_middle (pre ++ c :: mid) [d] post (by rfl)]
      simp only [Option.bind_some]
      rw [show pre ++ c :: mid ++ [c] ++ post = pre ++ [c] ++ (mid ++ [c] ++ post) by simp,
        writeAt_middle pre [c] (mid ++ [c] ++ post) (by rfl)]
      simp only [Option.bind_some]
      rw [show pre ++ [d] ++ (mid ++ [c] ++ post) = pre ++ [d] ++ mid ++ c :: post by simp,
        show pre.length + [c].length = (pre ++ [d]).length by simp,
        show (pre ++ c :: mid).length - [c].length = (pre ++ [d]).length + mid.length - 1 by simp,
        hinner]
      simp

theorem itopSigned_eq {value : Int} (hlow : -2 ^ 31 ≤ value) (hhigh : value < 2 ^ 31)
    (old post : Bytes) (hold : old.length = (decimalInt value).length) :
    itopSigned value (old ++ post) =
      some ((decimalInt value).reverse ++ post, (decimalInt value).length) := by
  have huvalue : ((if value < 0 then -value else value) % 2 ^ 32).toNat = value.natAbs := by
    split <;> omega
  rw [itopSigned, huvalue]
  unfold decimalInt at hold ⊢
  by_cases hneg : value < 0
  · rw [if_pos hneg] at hold ⊢
    -- the last of the bytes takes the sign
    obtain ⟨init, o, rfl⟩ : ∃ init o, old = init ++ [o] :=
      ⟨_, _, (List.dropLast_append_getLast (List.ne_nil_of_length_pos (by simp [hold]))).symm⟩
    have hdigits := itopDigits_eq value.natAbs [] init (o :: post) (by simpa using hold)
    have hminus := @writeAt_middle [0x2d] (decimal value.natAbs).reverse [o] post rfl
    simp only [List.nil_append, List.length_nil, Nat.zero_add] at hdigits
    simp only [List.length_reverse, List.append_assoc, List.singleton_append] at hminus
    simp [hdigits, hneg, hminus]
  · rw [if_neg hneg] at hold ⊢
    have hdigits := itopDigits_eq value.natAbs [] old post hold
    simp only [List.nil_append, List.length_nil, Nat.zero_add] at hdigits
    simp [hdigits, hneg]

/-- `mk_string_itop` of an `int`: its text, CRLF and a NUL take the place of as many bytes. -/
theorem mkStringItop_eq {value : Int} (hlow : -2 ^ 31 ≤ value) (hhigh : value < 2 ^ 31)
    (old : Bytes) (a b c : UInt8) (post : Bytes) (hold : old.length = (decimalInt value).length) :
    mkStringItop value (old ++ a :: b :: c :: post) =
      some (decimalInt value ++ 0x0d :: 0x0a :: 0 :: post, (decimalInt value).length + 2) := by
  obtain ⟨t, ht⟩ : ∃ t, decimalInt value = t := ⟨_, rfl⟩
  have hsigned := itopSigned_eq hlow hhigh old (a :: b :: c :: post) hold
  have hreverse := itopReverse_eq [] t.reverse (0 :: b :: c :: post)
  rw [ht] at hsigned ⊢
  simp only [List.nil_append, List.length_nil, Nat.zero_add, List.length_reverse,
    List.reverse_reverse] at hreverse
  -- the three bytes behind the text
  have hnul := @writeAt_middle [0] t.reverse [a] (b :: c :: post) rfl
  have hcr := @writeAt_middle [0x0d] t [0] (b :: c :: post) rfl
  have hlf := @writeAt_middle [0x0a] (t ++ [0x0d]) [b] (c :: post) rfl
  have hend := @writeAt_middle [0] (t ++ [0x0d, 0x0a]) [c] post rfl
  simp only [List.append_assoc, List.length_append, List.length_reverse,
    List.length_cons, List.length_nil, List.cons_append, List.nil_append] at hnul hcr hlf hend
  rw [mkStringItop, hsigned]
  simp only [Option.bind_eq_bind, Option.bind_some, hnul, hreverse, hcr, hlf, hend]
  simp

/-! ## the header -/

/-- The `Content-Length` row of `mk_header_send`: the value it adds behind the name, if there
is one, is `cl.data` up to `cl.len`. -/
def contentLengthValue (h : ResponseHeaders) (cl : Bytes) : Option (Bytes × Nat) :=
  if h.contentLength ≥ 0 then mkStringItop (toInt h.contentLength) cl else none

/-- It prints the length that the block of the header carries. -/
theorem contentLengthValue_headerBlock (ctx : Ctx) (sr : SessionRequest) (cl : Bytes) :
    contentLengthValue sr.headers cl =
      (headerBlock ctx sr).contentLength.bind fun value => mkStringItop value cl := by
  unfold contentLengthValue headerBlock
  split <;> rfl

/-- The value is the decimal representation of `content_length`, ended by CRLF. -/
def ContentLengthExact (h : ResponseHeaders) (cl : Bytes) : Prop :=
  ∃ data len, contentLengthValue h cl = some (data, len) ∧
    data.take len = decimal h.contentLength.toNat ++ [0x0d, 0x0a] ∧
    len = (decimal h.contentLength.toNat).length + 2

theorem length_decimalInt {value : Int} (hlow : -2 ^ 31 ≤ value) (hhigh : value < 2 ^ 31) :
    (decimalInt value).length + 3 ≤ mkUtilsInt2mkpBufferLen := by
  have hlen := @length_decimal 9 value.natAbs (by omega)
  unfold decimalInt mkUtilsInt2mkpBufferLen
  split
  · rw [List.length_cons]
    omega
  · omega

/-- What is written is the value after its conversion to `int`, and it fits. -/
theorem contentLengthValue_eq {h : ResponseHeaders} {cl : Bytes} (h0 : 0 ≤ h.contentLength)
    (hcl : cl.length = mkUtilsInt2mkpBufferLen) :
    ∃ data, contentLengthValue h cl = some (data, (decimalInt (toInt h.contentLength)).length + 2) ∧
      data.length = cl.length ∧
      data.take ((decimalInt (toInt h.contentLength)).length + 2) =
        decimalInt (toInt h.contentLength) ++ [0x0d, 0x0a] := by
  have hlow := toInt_lower h.contentLength
  have hhigh := toInt_upper h.contentLength
  have hroom := length_decimalInt hlow hhigh
  rw [contentLengthValue, if_pos h0]
  generalize toInt h.contentLength = value at hlow hhigh hroom ⊢
  obtain ⟨a, b, c, post, hpost⟩ : ∃ a b c post,
      cl.drop (decimalInt value).length = a :: b :: c :: post := by
    have hdrop : 3 ≤ (cl.drop (decimalInt value).length).length := by
      rw [List.length_drop]
      omega
    rcases hcase : cl.drop (decimalInt value).length with _ | ⟨a, _ | ⟨b, _ | ⟨c, post⟩⟩⟩
    all_goals simp [hcase] at hdrop ⊢
  have hcut := List.take_append_drop (decimalInt value).length cl
  rw [hpost] at hcut
  have heq := mkStringItop_eq hlow hhigh (cl.take (decimalInt value).length) a b c post
    (by rw [List.length_take]; omega)
  rw [hcut] at heq
  refine ⟨_, heq, ?_, ?_⟩
  · have hlength := congrArg List.length hcut
    simp only [List.length_append, List.length_cons, List.length_take] at hlength ⊢
    omega
  · rw [show decimalInt value ++ 0x0d :: 0x0a :: 0 :: post =
      (decimalInt value ++ [0x0d, 0x0a]) ++ 0 :: post by simp]
    exact List.take_left' (by simp)

/-- **Content-Length**: the header has the length of the response exactly when it is below
`2 ^ 31`. -/
theorem contentLength_exact_iff {h : ResponseHeaders} {cl : Bytes} (h0 : 0 ≤ h.contentLength)
    (hcl : cl.length = mkUtilsInt2mkpBufferLen) :
    ContentLengthExact h cl ↔ h.contentLength < 2 ^ 31 := by
  obtain ⟨data, heq, -, htext⟩ := contentLengthValue_eq h0 hcl
  constructor
  · rintro ⟨data', len, heq', htext', -⟩
    obtain ⟨rfl, rfl⟩ := Prod.mk.inj (Option.some.inj (heq.symm.trans heq'))
    have hsame := List.append_cancel_right (htext.symm.trans htext')
    have hvalue := decimalInt_eq_decimal hsame
    have := toInt_upper h.contentLength
    omega
  · intro hsmall
    have hvalue : decimalInt (toInt h.contentLength) = decimal h.contentLength.toNat := by
      rw [toInt_eq_self (by omega) hsmall, decimalInt, if_neg (by omega)]
      congr 1
      omega
    rw [hvalue] at heq htext
    exact ⟨data, _, heq, htext, rfl⟩

/-- A file of ten bytes. -/
theorem contentLength_exact_ten :
    ContentLengthExact { contentLength := 10 } (List.replicate 16 0) :=
  (contentLength_exact_iff (by decide) (by decide)).mpr (by decide)

/-- A file of 2 GiB is announced with `-2147483648` bytes. -/
theorem contentLength_two_gib : ¬ ∀ (h : ResponseHeaders) (cl : Bytes), 0 ≤ h.contentLength →
    cl.length = mkUtilsInt2mkpBufferLen → ContentLengthExact h cl := by
  intro hall
  obtain ⟨data, len, heq, htext, -⟩ := hall { contentLength := 2 ^ 31 } (List.replicate 16 0)
    (by decide) (by decide)
  obtain ⟨data', heq', -, htext'⟩ := @contentLengthValue_eq { contentLength := 2 ^ 31 }
    (List.replicate 16 0) (by decide) (by decide)
  obtain ⟨rfl, rfl⟩ := Prod.mk.inj (Option.some.inj (heq'.symm.trans heq))
  have hvalue := decimalInt_eq_decimal (List.append_cancel_right (htext'.symm.trans htext))
  contradiction

/-! ## any number -/

/-- `mk_string_itop` into a buffer of at least `MK_UTILS_INT2MKP_BUFFER_LEN` bytes. -/
theorem mkStringItop_text {value : Int} (hlow : -2 ^ 31 ≤ value) (hhigh : value < 2 ^ 31) {buf : Bytes}
    (hbuf : mkUtilsInt2mkpBufferLen ≤ buf.length) :
    ∃ data, mkStringItop value buf = some (data, (decimalInt value).length + 2) ∧
      data.take ((decimalInt value).length + 2) = decimalInt value ++ [0x0d, 0x0a] := by
  have hroom := length_decimalInt hlow hhigh
  obtain ⟨a, b, c, post, hpost⟩ : ∃ a b c post, buf.drop (decimalInt value).length = a :: b :: c :: post := by
    have hdrop : 3 ≤ (buf.drop (decimalInt value).length).length := by
      rw [List.length_drop]
      omega
    rcases hcase : buf.drop (decimalInt value).length with _ | ⟨a, _ | ⟨b, _ | ⟨c, post⟩⟩⟩
    all_goals simp [hcase] at hdrop ⊢
  have heq := mkStringItop_eq hlow hhigh (buf.take (decimalInt value).length) a b c post
    (by rw [List.length_take]; omega)
  rw [← hpost, List.take_append_drop] at heq
  refine ⟨_, heq, ?_⟩
  rw [show decimalInt value ++ 0x0d :: 0x0a :: 0 :: post = (decimalInt value ++ [0x0d, 0x0a]) ++ 0 :: post by simp]
  exact List.take_left' (by simp)

end Monkey
