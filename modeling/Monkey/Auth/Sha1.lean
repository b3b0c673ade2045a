import Monkey.Lib.Block
import Monkey.Lib.ByteOrder

/-!
# Monkey.Auth.Sha1

`blk_SHA1_Block` of `sha1.c`, and the function of a block that the standard defines.

The code keeps the last 16 words of the schedule in a ring, and where the standard moves
the five working variables round it changes two of them in place and calls each macro with
the names turned one further.
-/

namespace Monkey.Auth

abbrev Word := BitVec 32

/-! ## words in memory -/

/-- The word whose four octets lie here, read as the machine does. -/
def loadWord (order : ByteOrder) : Bytes → Option Word
  | [m₀, m₁, m₂, m₃] => some (order.read m₀.toBitVec m₁.toBitVec m₂.toBitVec m₃.toBitVec)
  | _ => none

/-- The memory of a word on the machine. -/
def storeWord : ByteOrder → Word → Bytes
  | .little, x => [⟨octet x 0⟩, ⟨octet x 1⟩, ⟨octet x 2⟩, ⟨octet x 3⟩]
  | .big, x => [⟨octet x 3⟩, ⟨octet x 2⟩, ⟨octet x 1⟩, ⟨octet x 0⟩]

/-- `get_be32`: where the machine is not known it puts the octets together one by one, as
with `.big`. -/
def getBe32 (order : ByteOrder) (p : Bytes) (i : Nat) : Option Word :=
  ((readAt p i 4).bind (loadWord order)).map (htonl order)

/-- The octets of a word, the most significant one first. -/
def wordBytes (x : Word) : Bytes := [⟨octet x 3⟩, ⟨octet x 2⟩, ⟨octet x 1⟩, ⟨octet x 0⟩]

/-- The word of four octets, the most significant one first. -/
def beWord (b₀ b₁ b₂ b₃ : UInt8) : Word := word b₀.toBitVec b₁.toBitVec b₂.toBitVec b₃.toBitVec

/-! ## the code -/

/-- The working variables, by their names in the function. -/
structure Regs where
  A : Word
  B : Word
  C : Word
  D : Word
  E : Word
deriving DecidableEq, Repr

/-- `fn` of the macros. -/
def roundFn (t : Nat) (B C D : Word) : Word :=
  if t < 20 then ((C ^^^ D) &&& B) ^^^ D
  else if t < 40 then B ^^^ C ^^^ D
  else if t < 60 then (B &&& C) + (D &&& (B ^^^ C))
  else B ^^^ C ^^^ D

/-- `constant` of the macros. -/
def roundConstant (t : Nat) : Word :=
  if t < 20 then 0x5a827999
  else if t < 40 then 0x6ed9eba1
  else if t < 60 then 0x8f1bbcdc
  else 0xca62c1d6

/-- `SHA_ROUND` once the word is in the ring: the new `B` and `E`. -/
def shaRound (t : Nat) (temp A B C D E : Word) : Word × Word :=
  (B.rotateRight 2, E + (temp + A.rotateLeft 5 + roundFn t B C D + roundConstant t))

/-- The call of round `t`, with the names turned as far as it is written. -/
def shaCall (t : Nat) (temp : Word) (r : Regs) : Regs :=
  match t % 5 with
  | 0 =>
      let (B, E) := shaRound t temp r.A r.B r.C r.D r.E
      { r with B, E }
  | 1 =>
      let (A, D) := shaRound t temp r.E r.A r.B r.C r.D
      { r with A, D }
  | 2 =>
      let (E, C) := shaRound t temp r.D r.E r.A r.B r.C
      { r with E, C }
  | 3 =>
      let (D, B) := shaRound t temp r.C r.D r.E r.A r.B
      { r with D, B }
  | _ =>
      let (C, A) := shaRound t temp r.B r.C r.D r.E r.A
      { r with C, A }

/-- `W(x)` of the ring. -/
def ringGet (array : List Word) (x : Nat) : Word := array.getD (x % 16) 0

/-- `SHA_MIX`. -/
def shaMix (array : List Word) (t : Nat) : Word :=
  (ringGet array (t + 13) ^^^ ringGet array (t + 8) ^^^ ringGet array (t + 2) ^^^ ringGet array t).rotateLeft 1

/-- Round `t`: the first 16 take their word from the block, the others from the ring. -/
def shaStep (order : ByteOrder) (data : Bytes) (t : Nat) (s : Regs × List Word) : Option (Regs × List Word) :=
  (if t < 16 then getBe32 order data (4 * t) else some (shaMix s.2 t)).map fun temp =>
    (shaCall t temp s.1, s.2.set (t % 16) temp)

/-- The first `n` rounds. -/
def shaRounds (order : ByteOrder) (data : Bytes) (s : Regs × List Word) : Nat → Option (Regs × List Word)
  | 0 => some s
  | t + 1 => (shaRounds order data s t).bind (shaStep order data t)

/-- `blk_SHA1_Block`; the ring starts with what the stack holds. -/
def blkSha1Block (order : ByteOrder) (junk : Nat → Word) (H : Regs) (data : Bytes) : Option Regs :=
  (shaRounds order data (H, (List.range 16).map junk) 80).map fun s =>
    { A := H.A + s.1.A, B := H.B + s.1.B, C := H.C + s.1.C, D := H.D + s.1.D, E := H.E + s.1.E }

/-! ## the standard -/

/-- Word `t` of a block. -/
def blockWord (data : Bytes) (t : Nat) : Word :=
  beWord (data.getD (4 * t) 0) (data.getD (4 * t + 1) 0) (data.getD (4 * t + 2) 0) (data.getD (4 * t + 3) 0)

/-- The message schedule. -/
def schedule (data : Bytes) (t : Nat) : Word :=
  if t < 16 then blockWord data t
  else (schedule data (t - 3) ^^^ schedule data (t - 8) ^^^ schedule data (t - 14) ^^^
    schedule data (t - 16)).rotateLeft 1

/-- The functions `f` of the standard. -/
def stdF (t : Nat) (b c d : Word) : Word :=
  if t < 20 then (b &&& c) ||| (~~~ b &&& d)
  else if t < 40 then b ^^^ c ^^^ d
  else if t < 60 then (b &&& c) ||| (b &&& d) ||| (c &&& d)
  else b ^^^ c ^^^ d

/-- A step of the standard. -/
def stdStep (t : Nat) (w : Word) (r : Regs) : Regs where
  A := r.A.rotateLeft 5 + stdF t r.B r.C r.D + r.E + w + roundConstant t
  B := r.A
  C := r.B.rotateLeft 30
  D := r.C
  E := r.D

/-- The first `n` steps. -/
def stdSteps (data : Bytes) (r : Regs) : Nat → Regs
  | 0 => r
  | t + 1 => stdStep t (schedule data t) (stdSteps data r t)

/-- What the standard makes of the hash value `H` and a block. -/
def stdCompress (H : Regs) (data : Bytes) : Regs :=
  let r := stdSteps data H 80
  { A := H.A + r.A, B := H.B + r.B, C := H.C + r.C, D := H.D + r.D, E := H.E + r.E }

/-! ## words -/

/-- `htonl` stores the most significant octet first. -/
theorem storeWord_htonl (order : ByteOrder) (x : Word) : storeWord order (htonl order x) = wordBytes x := by
  cases order with
  | big => rw [htonl_big]; rfl
  | little =>
      obtain ⟨h₃, h₂, h₁, h₀⟩ := octet_word (octet x 0) (octet x 1) (octet x 2) (octet x 3)
      simp only [storeWord, htonl, ByteOrder.read, wordBytes, h₀, h₁, h₂, h₃]

theorem htonl_read (order : ByteOrder) (b₀ b₁ b₂ b₃ : BitVec 8) :
    htonl order (order.read b₀ b₁ b₂ b₃) = word b₀ b₁ b₂ b₃ := by
  cases order with
  | big => exact htonl_big _
  | little =>
      obtain ⟨h₃, h₂, h₁, h₀⟩ := octet_word b₃ b₂ b₁ b₀
      simp only [htonl, ByteOrder.read, h₀, h₁, h₂, h₃]

/-- A word of a block, on any machine. -/
theorem getBe32_eq {order : ByteOrder} {data : Bytes} {t : Nat} (h : 4 * t + 4 ≤ data.length) :
    getBe32 order data (4 * t) = some (blockWord data t) := by
  have hfour : (data.drop (4 * t)).take 4 =
      [data.getD (4 * t) 0, data.getD (4 * t + 1) 0, data.getD (4 * t + 2) 0, data.getD (4 * t + 3) 0] := by
    apply List.ext_getElem
    · simp
      omega
    · intro i hi _
      have hlt : i < 4 := hi.trans_le (List.length_take_le ..)
      interval_cases i <;> simp [List.getD_eq_getElem?_getD, show 4 * t < data.length by omega,
        show 4 * t + 1 < data.length by omega, show 4 * t + 2 < data.length by omega,
        show 4 * t + 3 < data.length by omega]
  rw [getBe32, readAt, if_pos h, hfour]
  exact congrArg some (htonl_read ..)

/-! ## the functions of the rounds -/

theorem choose_eq (b c d : Word) : ((c ^^^ d) &&& b) ^^^ d = (b &&& c) ||| (~~~ b &&& d) := by
  apply BitVec.eq_of_getLsbD_eq
  intro i hi
  simp only [BitVec.getLsbD_xor, BitVec.getLsbD_and, BitVec.getLsbD_or, BitVec.getLsbD_not, hi, decide_true,
    Bool.true_and]
  cases b.getLsbD i <;> cases c.getLsbD i <;> cases d.getLsbD i <;> rfl

/-- The sum has no carries. -/
theorem majority_eq (b c d : Word) :
    (b &&& c) + (d &&& (b ^^^ c)) = (b &&& c) ||| (b &&& d) ||| (c &&& d) := by
  have hdisjoint : (b &&& c) &&& (d &&& (b ^^^ c)) = 0#32 := by
    apply BitVec.eq_of_getLsbD_eq
    intro i hi
    simp only [BitVec.getLsbD_xor, BitVec.getLsbD_and, BitVec.getLsbD_zero]
    cases b.getLsbD i <;> cases c.getLsbD i <;> cases d.getLsbD i <;> rfl
  rw [BitVec.add_eq_or_of_and_eq_zero _ _ hdisjoint]
  apply BitVec.eq_of_getLsbD_eq
  intro i hi
  simp only [BitVec.getLsbD_xor, BitVec.getLsbD_and, BitVec.getLsbD_or]
  cases b.getLsbD i <;> cases c.getLsbD i <;> cases d.getLsbD i <;> rfl

theorem roundFn_eq (t : Nat) (b c d : Word) : roundFn t b c d = stdF t b c d := by
  simp only [roundFn, stdF, choose_eq, majority_eq]

/-! ## the variables -/

/-- The variables of the standard before round `t`. -/
def turned (t : Nat) (r : Regs) : Regs :=
  match t % 5 with
  | 0 => r
  | 1 => ⟨r.E, r.A, r.B, r.C, r.D⟩
  | 2 => ⟨r.D, r.E, r.A, r.B, r.C⟩
  | 3 => ⟨r.C, r.D, r.E, r.A, r.B⟩
  | _ => ⟨r.B, r.C, r.D, r.E, r.A⟩

/-- **One round** is one step of the standard. -/
theorem turned_shaCall (t : Nat) (w : Word) (r : Regs) : turned (t + 1) (shaCall t w r) = stdStep t w (turned t r) := by
  have hrotate : ∀ b : Word, b.rotateRight 2 = b.rotateLeft 30 := by
    intro b
    rw [BitVec.rotateRight_def, BitVec.rotateLeft_def, BitVec.or_comm]
  have hsum : ∀ a b c d e : Word, e + (w + a.rotateLeft 5 + roundFn t b c d + roundConstant t) =
      a.rotateLeft 5 + stdF t b c d + e + w + roundConstant t := by
    intro a b c d e
    rw [roundFn_eq]
    ac_rfl
  have hcases : t % 5 = 0 ∨ t % 5 = 1 ∨ t % 5 = 2 ∨ t % 5 = 3 ∨ t % 5 = 4 := by omega
  obtain h | h | h | h | h := hcases
  all_goals
    have hnext : (t + 1) % 5 = (t % 5 + 1) % 5 := by omega
    simp only [h, Nat.reduceAdd, Nat.reduceMod] at hnext
    simp only [turned, shaCall, h, hnext, shaRound, stdStep, hrotate, hsum]

/-! ## the ring -/

/-- The ring before round `t` holds the 16 words before. -/
def RingHolds (data : Bytes) (t : Nat) (array : List Word) : Prop :=
  array.length = 16 ∧ ∀ k < t, t ≤ k + 16 → ringGet array k = schedule data k

theorem RingHolds.set {data : Bytes} {t : Nat} {array : List Word} (h : RingHolds data t array) :
    RingHolds data (t + 1) (array.set (t % 16) (schedule data t)) := by
  obtain ⟨hlen, hring⟩ := h
  refine ⟨by rw [List.length_set, hlen], fun k hk hlast => ?_⟩
  unfold ringGet at hring ⊢
  by_cases hkt : k = t
  · subst hkt
    simp [List.getD_eq_getElem?_getD, hlen, Nat.mod_lt]
  · rw [List.getD_eq_getElem?_getD, List.getElem?_set_ne (by omega), ← List.getD_eq_getElem?_getD]
    exact hring k (by omega) (by omega)

/-- The word mixed from the ring is that of the schedule. -/
theorem RingHolds.mix {data : Bytes} {t : Nat} {array : List Word} (h : RingHolds data t array) (ht : 16 ≤ t) :
    shaMix array t = schedule data t := by
  have hget : ∀ d, 1 ≤ d → d ≤ 16 → ringGet array (t + (16 - d)) = schedule data (t - d) := by
    intro d hd hd'
    rw [← h.2 (t - d) (by omega) (by omega), ringGet, ringGet, show t + (16 - d) = t - d + 16 by omega,
      Nat.add_mod_right]
  rw [schedule, if_neg (by omega), ← hget 3 (by omega) (by omega), ← hget 8 (by omega) (by omega),
    ← hget 14 (by omega) (by omega), ← hget 16 (by omega) (by omega)]
  rfl

/-! ## a block -/

/-- **The first rounds** leave the variables of the standard and the last words. -/
theorem shaRounds_eq {order : ByteOrder} {data : Bytes} (hdata : 64 ≤ data.length) (H : Regs) {array : List Word}
    (harray : array.length = 16) (n : Nat) :
    ∃ r ring, shaRounds order data (H, array) n = some (r, ring) ∧ turned n r = stdSteps data H n ∧
      RingHolds data n ring := by
  induction n with
  | zero => exact ⟨H, array, rfl, rfl, harray, fun k hk => absurd hk (Nat.not_lt_zero k)⟩
  | succ t ih =>
      obtain ⟨r, ring, hrounds, hturned, hring⟩ := ih
      have hword : (if t < 16 then getBe32 order data (4 * t) else some (shaMix ring t)) =
          some (schedule data t) := by
        by_cases ht : t < 16
        · rw [if_pos ht, getBe32_eq (by omega), schedule, if_pos ht]
        · rw [if_neg ht, hring.mix (by omega)]
      refine ⟨shaCall t (schedule data t) r, _, ?_, ?_, hring.set⟩
      · rw [shaRounds, hrounds, Option.bind_some, shaStep, hword]
        rfl
      · rw [turned_shaCall, hturned, stdSteps]

/-- **A block** is what the standard makes of it, whatever the stack held; nothing outside
the 64 bytes is read. -/
theorem blkSha1Block_eq (order : ByteOrder) (junk : Nat → Word) (H : Regs) {data : Bytes} (hdata : data.length = 64) :
    blkSha1Block order junk H data = some (stdCompress H data) := by
  obtain ⟨r, ring, hrounds, hturned, -⟩ := @shaRounds_eq order data hdata.ge H _
    (show ((List.range 16).map junk).length = 16 by simp) 80
  have hr : r = stdSteps data H 80 := hturned
  rw [blkSha1Block, hrounds, Option.map_some, hr]
  rfl

end Monkey.Auth
