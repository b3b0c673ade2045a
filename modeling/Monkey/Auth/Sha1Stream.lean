import Monkey.Lib.BlockStream
import Monkey.Auth.Sha1
import Monkey.Auth.Users

/-!
# Monkey.Auth.Sha1Stream

`blk_SHA1_Init`, `blk_SHA1_Update` and `blk_SHA1_Final`: a message in any pieces is hashed
as the standard hashes the whole of it.

Between two pieces the context holds what `absorb` holds: the hash value of the whole
blocks, and the unfinished block at the front of `W`, with older bytes behind it.
-/

namespace Monkey.Auth

/-! ## the code -/

/-- `blk_SHA_CTX`; `W` is the memory of its 16 words. -/
structure ShaCtx where
  size : Nat
  H : Regs
  W : Bytes
deriving DecidableEq, Repr

/-- The constants of `blk_SHA1_Init`. -/
def sha1Magic : Regs := ⟨0x67452301, 0xefcdab89, 0x98badcfe, 0x10325476, 0xc3d2e1f0⟩

/-- `memcpy` of `n` bytes to `i`. -/
def memcpyAt (dst : Bytes) (i : Nat) (src : Bytes) (n : Nat) : Option Bytes := (readAt src 0 n).bind (writeAt dst i)

section machine

variable (order : ByteOrder) (junk : Nat → Word)

/-- `blk_SHA1_Init`; `W` keeps what the memory holds. -/
def blkSha1Init (memory : Nat → UInt8) : ShaCtx := { size := 0, H := sha1Magic, W := newBuffer memory 64 }

/-- A block that lies at `data`. -/
def ShaCtx.block (ctx : ShaCtx) (data : Bytes) : Option ShaCtx :=
  (readAt data 0 64).bind fun data => (blkSha1Block order junk ctx.H data).map fun H => { ctx with H }

/-- The loop of `blk_SHA1_Update` over the whole blocks, and the copy of what is left. -/
def blkSha1Loop : Nat → ShaCtx → Bytes → Nat → Option ShaCtx
  | fuel + 1, ctx, data, len =>
      if 64 ≤ len then
        (ctx.block order junk data).bind fun ctx => blkSha1Loop fuel ctx (data.drop 64) (len - 64)
      else if len ≠ 0 then (memcpyAt ctx.W 0 data len).map fun W => { ctx with W }
      else some ctx
  | 0, ctx, _, _ => some ctx

/-- `blk_SHA1_Update`. -/
def blkSha1Update (ctx : ShaCtx) (data : Bytes) (len : Nat) : Option ShaCtx :=
  let lenW := ctx.size % 64
  let ctx := { ctx with size := (ctx.size + len) % 2 ^ 64 }
  if lenW ≠ 0 then
    let left := min (64 - lenW) len
    (memcpyAt ctx.W lenW data left).bind fun W =>
      let ctx := { ctx with W }
      if (lenW + left) % 64 ≠ 0 then some ctx
      else
        (ctx.block order junk ctx.W).bind fun ctx =>
          blkSha1Loop order junk (len - left + 1) ctx (data.drop left) (len - left)
  else blkSha1Loop order junk (len + 1) ctx data len

/-- `pad` of `blk_SHA1_Final`. -/
def sha1Pad : Bytes := 0x80 :: List.replicate 63 0

/-- `padlen`: the number of bits in two words. -/
def sha1Padlen (size : Nat) : Bytes :=
  storeWord order (htonl order (BitVec.ofNat 32 (size / 2 ^ 29))) ++
    storeWord order (htonl order (BitVec.ofNat 32 (size * 2 ^ 3)))

/-- `blk_SHA1_Final`: the 20 bytes of `hashout`. -/
def blkSha1Final (ctx : ShaCtx) : Option Bytes :=
  let padlen := sha1Padlen order ctx.size
  let i : Int := ↑(ctx.size % 64)
  (blkSha1Update order junk ctx sha1Pad (1 + ((55 - i) % 64).toNat)).bind fun ctx =>
    (blkSha1Update order junk ctx padlen 8).map fun ctx =>
      [ctx.H.A, ctx.H.B, ctx.H.C, ctx.H.D, ctx.H.E].flatMap fun x => storeWord order (htonl order x)

/-- A digest of a message that comes in pieces. -/
def sha1Chunks (memory : Nat → UInt8) (chunks : List Bytes) : Option Bytes :=
  (chunks.foldlM (fun ctx c => blkSha1Update order junk ctx c c.length) (blkSha1Init memory)).bind
    (blkSha1Final order junk)

end machine

/-! ## the standard -/

/-- The hash value of the whole blocks of a message, and the unfinished block. -/
def stdAbsorb (s : Regs × Bytes) (m : Bytes) : Regs × Bytes := absorb (show 0 < 64 by decide) stdCompress s m

/-- The padding of a message of `n` bytes: a bit, zeros up to eight bytes before the end of
a block, and the number of bits of the message. -/
def stdPad (n : Nat) : Bytes :=
  0x80 :: List.replicate ((119 - n % 64) % 64) 0 ++ (List.range 8).map fun i => UInt8.ofNat (8 * n / 256 ^ (7 - i))

/-- SHA-1 as the standard defines it. -/
def sha1 (m : Bytes) : Bytes :=
  let H := (stdAbsorb (sha1Magic, []) (m ++ stdPad m.length)).1
  [H.A, H.B, H.C, H.D, H.E].flatMap wordBytes

/-! ## what a context holds -/

/-- The context after the bytes `m`. -/
structure ShaCtx.Holds (ctx : ShaCtx) (m : Bytes) : Prop where
  size : ctx.size = m.length % 2 ^ 64
  room : ctx.W.length = 64
  hash : ctx.H = (stdAbsorb (sha1Magic, []) m).1
  rest : ctx.W.take (m.length % 64) = (stdAbsorb (sha1Magic, []) m).2

theorem length_stdAbsorb (m : Bytes) : (stdAbsorb (sha1Magic, []) m).2.length = m.length % 64 := by
  rw [stdAbsorb, length_absorb, List.length_nil, Nat.zero_add]

/-- The message is taken on from what it has left. -/
theorem stdAbsorb_append (s : Regs × Bytes) (m m' : Bytes) :
    stdAbsorb s (m ++ m') = stdAbsorb (stdAbsorb s m) m' := (absorb_absorb s m m').symm

theorem stdAbsorb_nil : stdAbsorb (sha1Magic, []) [] = (sha1Magic, []) := absorb_short (by decide)

theorem blkSha1Init_holds (memory : Nat → UInt8) : (blkSha1Init memory).Holds [] where
  size := rfl
  room := length_newBuffer memory 64
  hash := (congrArg Prod.fst stdAbsorb_nil).symm
  rest := (congrArg Prod.snd stdAbsorb_nil).symm

/-! ## one piece -/

section machine

variable (order : ByteOrder) (junk : Nat → Word)

theorem memcpyAt_eq {dst src : Bytes} {i n : Nat} (hsrc : n ≤ src.length) (hdst : i + n ≤ dst.length) :
    memcpyAt dst i src n = some (fillAt dst i (src.take n)) := by
  rw [memcpyAt, readAt, if_pos (by omega), List.drop_zero, Option.bind_some,
    writeAt_of_le (by rwa [List.length_take_of_le hsrc])]

theorem block_eq (ctx : ShaCtx) {data : Bytes} (hdata : 64 ≤ data.length) :
    ctx.block order junk data = some { ctx with H := stdCompress ctx.H (data.take 64) } := by
  rw [ShaCtx.block, readAt, if_pos (by omega), List.drop_zero, Option.bind_some,
    blkSha1Block_eq order junk ctx.H (List.length_take_of_le hdata), Option.map_some]

/-- **The loop** takes the whole blocks and keeps what is left. -/
theorem blkSha1Loop_eq (fuel : Nat) (ctx : ShaCtx) (hroom : ctx.W.length = 64) (data : Bytes) {len : Nat}
    (hdata : len ≤ data.length) (hfuel : len < fuel) :
    ∃ W, blkSha1Loop order junk fuel ctx data len =
        some { ctx with H := (stdAbsorb (ctx.H, []) (data.take len)).1, W } ∧
      W.length = 64 ∧ W.take (len % 64) = (stdAbsorb (ctx.H, []) (data.take len)).2 := by
  have hlen : (data.take len).length = len := List.length_take_of_le hdata
  induction fuel generalizing ctx data len with
  | zero => exact absurd hfuel (Nat.not_lt_zero len)
  | succ fuel ih =>
      rw [blkSha1Loop]
      by_cases hfull : 64 ≤ len
      · have hdrop : (data.drop 64).length = data.length - 64 := List.length_drop
        have hstep : stdAbsorb (ctx.H, []) (data.take len) =
            stdAbsorb (stdCompress ctx.H (data.take 64), []) ((data.drop 64).take (len - 64)) := by
          rw [stdAbsorb, absorb_block (by simp [hlen, hfull])]
          simp [stdAbsorb, List.take_take, hfull, List.drop_take]
        rw [if_pos hfull, block_eq _ _ ctx (by omega), Option.bind_some, hstep, Nat.mod_eq_sub_mod hfull]
        exact ih { ctx with H := stdCompress ctx.H (data.take 64) } hroom (data.drop 64) (by omega) (by omega)
          (List.length_take_of_le (by omega))
      · have hshort : stdAbsorb (ctx.H, []) (data.take len) = (ctx.H, data.take len) := by
          rw [stdAbsorb, absorb_short (by simp [hlen]; omega), List.nil_append]
        rw [if_neg hfull, hshort, Nat.mod_eq_of_lt (by omega)]
        by_cases hnil : len = 0
        · subst hnil
          exact ⟨ctx.W, by simp, hroom, rfl⟩
        · rw [if_pos hnil, memcpyAt_eq hdata (by omega), Option.map_some]
          refine ⟨_, rfl, ?_, ?_⟩
          · rw [length_fillAt (by omega), hroom]
          · have htake := take_fillAt (Nat.zero_le ctx.W.length) (data.take len)
            rwa [hlen, Nat.zero_add, List.take_zero, List.nil_append] at htake

/-- **One piece** more. -/
theorem blkSha1Update_holds {ctx : ShaCtx} {m : Bytes} (h : ctx.Holds m) (data : Bytes) {len : Nat}
    (hdata : len ≤ data.length) :
    ∃ ctx', blkSha1Update order junk ctx data len = some ctx' ∧ ctx'.Holds (m ++ data.take len) := by
  have hlen : (data.take len).length = len := List.length_take_of_le hdata
  have hW : ctx.size % 64 = m.length % 64 := by
    rw [h.size, Nat.mod_mod_of_dvd _ (by decide)]
  have hrest := length_stdAbsorb m
  have hsize : (ctx.size + len) % 2 ^ 64 = (m ++ data.take len).length % 2 ^ 64 := by
    rw [h.size, List.length_append, hlen, Nat.mod_add_mod]
  have hmore : stdAbsorb (sha1Magic, []) (m ++ data.take len) =
      stdAbsorb (stdAbsorb (sha1Magic, []) m) (data.take len) := stdAbsorb_append ..
  have hmod : (m ++ data.take len).length % 64 = (m.length % 64 + len) % 64 := by
    rw [List.length_append, hlen, Nat.mod_add_mod]
  rcases hs : stdAbsorb (sha1Magic, []) m with ⟨H₀, rest⟩
  have hH : ctx.H = H₀ := by rw [h.hash, hs]
  have hkept : ctx.W.take (m.length % 64) = rest := by rw [h.rest, hs]
  rw [hs] at hrest hmore
  dsimp only at hrest
  unfold blkSha1Update
  dsimp only
  rw [hW]
  by_cases hzero : m.length % 64 = 0
  · obtain rfl : rest = [] := List.eq_nil_of_length_eq_zero (hrest.trans hzero)
    obtain ⟨W, hloop, hroom, htail⟩ := blkSha1Loop_eq order junk (len + 1)
      { ctx with size := (ctx.size + len) % 2 ^ 64 } h.room data hdata (Nat.lt_succ_self len)
    rw [if_neg (by simpa using hzero), hloop]
    refine ⟨_, rfl, hsize, hroom, ?_, ?_⟩
    · rw [hmore, ← hH]
    · rw [hmore, hmod, hzero, Nat.zero_add, htail, hH]
  · rw [if_pos hzero]
    have hroom := h.room
    by_cases hshort : m.length % 64 + len < 64
    · -- the block is not finished
      have habsorb : stdAbsorb (H₀, rest) (data.take len) = (H₀, rest ++ data.take len) := by
        rw [stdAbsorb, absorb_short (by rw [hrest, hlen]; exact hshort)]
      rw [Nat.min_eq_right (by omega), memcpyAt_eq hdata (by omega), Option.bind_some, if_pos (by omega)]
      refine ⟨_, rfl, hsize, ?_, ?_, ?_⟩
      · rw [length_fillAt (by omega), hroom]
      · rw [hmore, habsorb, ← hH]
      · have htake := take_fillAt (show m.length % 64 ≤ ctx.W.length by omega) (data.take len)
        rw [hlen, hkept] at htake
        rw [hmore, hmod, Nat.mod_eq_of_lt hshort, htake, habsorb]
    · -- the piece finishes the block
      have hleft : m.length % 64 + (64 - m.length % 64) = 64 := by omega
      have hblock : fillAt ctx.W (m.length % 64) (data.take (64 - m.length % 64)) =
          rest ++ data.take (64 - m.length % 64) := by
        have htake := take_fillAt (show m.length % 64 ≤ ctx.W.length by omega) (data.take (64 - m.length % 64))
        have hfill : (fillAt ctx.W (m.length % 64) (data.take (64 - m.length % 64))).length = ctx.W.length :=
          length_fillAt (by rw [List.length_take]; omega)
        rw [List.length_take_of_le (by omega), hleft, hkept] at htake
        rwa [List.take_of_length_le (by rw [hfill]; omega)] at htake
      have hfull : (rest ++ data.take (64 - m.length % 64)).length = 64 := by
        rw [List.length_append, hrest, List.length_take_of_le (by omega), hleft]
      have hsplit : data.take len =
          data.take (64 - m.length % 64) ++ (data.drop (64 - m.length % 64)).take (len - (64 - m.length % 64)) := by
        rw [← List.take_add]
        congr 1
        omega
      have habsorb : stdAbsorb (H₀, rest) (data.take len) =
          stdAbsorb (stdCompress H₀ (rest ++ data.take (64 - m.length % 64)), [])
            ((data.drop (64 - m.length % 64)).take (len - (64 - m.length % 64))) := by
        rw [stdAbsorb, absorb_block (by rw [hrest, hlen]; omega), hsplit, ← List.append_assoc,
          List.take_left' hfull, List.drop_left' hfull]
        rfl
      rw [Nat.min_eq_left (by omega), memcpyAt_eq (by omega) (by omega), Option.bind_some, if_neg (by omega), hblock,
        block_eq _ _ _ hfull.ge, List.take_of_length_le hfull.le, Option.bind_some]
      obtain ⟨W, hloop, hroom', htail⟩ := blkSha1Loop_eq order junk (len - (64 - m.length % 64) + 1)
        { size := (ctx.size + len) % 2 ^ 64, H := stdCompress ctx.H (rest ++ data.take (64 - m.length % 64)),
          W := rest ++ data.take (64 - m.length % 64) }
        hfull (data.drop (64 - m.length % 64)) (by rw [List.length_drop]; omega) (Nat.lt_succ_self _)
      rw [hloop]
      refine ⟨_, rfl, hsize, hroom', ?_, ?_⟩
      · rw [hmore, habsorb, ← hH]
      · rw [hmore, habsorb, hmod, show (m.length % 64 + len) % 64 = (len - (64 - m.length % 64)) % 64 by omega, htail,
          hH]

/-- **Any pieces.** -/
theorem foldlM_update_holds {ctx : ShaCtx} {m : Bytes} (h : ctx.Holds m) (chunks : List Bytes) :
    ∃ ctx', chunks.foldlM (fun ctx c => blkSha1Update order junk ctx c c.length) ctx = some ctx' ∧
      ctx'.Holds (m ++ chunks.flatten) := by
  induction chunks generalizing ctx m with
  | nil => exact ⟨ctx, rfl, by simpa using h⟩
  | cons c chunks ih =>
      obtain ⟨ctx', hstep, hholds⟩ := blkSha1Update_holds order junk h c le_rfl
      rw [List.take_length] at hholds
      obtain ⟨ctx'', hrun, hall⟩ := ih hholds
      refine ⟨ctx'', ?_, by simpa using hall⟩
      rw [List.foldlM_cons, hstep]
      exact hrun

/-! ## the padding -/

theorem sha1Pad_take {n : Nat} (hn : n < 64) : sha1Pad.take (1 + n) = 0x80 :: List.replicate n 0 := by
  rw [sha1Pad, Nat.add_comm, List.take_succ_cons, List.take_replicate, Nat.min_eq_left (by omega)]

/-- The number of bits, of the size kept in 64 bits. -/
theorem sha1Padlen_eq (n : Nat) :
    sha1Padlen order (n % 2 ^ 64) = (List.range 8).map fun i => UInt8.ofNat (8 * n / 256 ^ (7 - i)) := by
  have hoctet : ∀ (x : Nat) (i : Nat), (⟨octet (BitVec.ofNat 32 x) i⟩ : UInt8) =
      UInt8.ofNat (x % 2 ^ 32 / 2 ^ (8 * i)) := by
    intro x i
    apply UInt8.toNat.inj
    show (octet (BitVec.ofNat 32 x) i).toNat = _
    rw [octet_toNat, BitVec.toNat_ofNat, UInt8.toNat_ofNat']
  rw [sha1Padlen, storeWord_htonl, storeWord_htonl]
  simp only [wordBytes, hoctet, List.range_succ, List.range_zero, List.map_nil, List.map_cons,
    List.nil_append, List.cons_append, List.cons.injEq, and_true]
  have hmod : ∀ a b : Nat, a % 256 = b % 256 → UInt8.ofNat a = UInt8.ofNat b := by
    intro a b h
    apply UInt8.toNat.inj
    rwa [UInt8.toNat_ofNat', UInt8.toNat_ofNat']
  refine ⟨?_, ?_, ?_, ?_, ?_, ?_, ?_, ?_⟩ <;> apply hmod <;> omega

/-- **The whole of it.**  However a message is cut into pieces, on either kind of machine and
whatever the memory held before, its digest is that of the standard, and no byte is read or
written outside the pieces, the context and the padding. -/
theorem sha1Chunks_eq (memory : Nat → UInt8) (chunks : List Bytes) :
    sha1Chunks order junk memory chunks = some (sha1 chunks.flatten) := by
  obtain ⟨ctx, hrun, hctx⟩ := foldlM_update_holds order junk (blkSha1Init_holds memory) chunks
  rw [List.nil_append] at hctx
  have hi : ctx.size % 64 = chunks.flatten.length % 64 := by rw [hctx.size, Nat.mod_mod_of_dvd _ (by decide)]
  have hzeros : ((55 - ((ctx.size % 64 : Nat) : Int)) % 64).toNat = (119 - chunks.flatten.length % 64) % 64 := by
    omega
  obtain ⟨ctx₁, hpad, hctx₁⟩ := blkSha1Update_holds order junk hctx sha1Pad
    (show 1 + (119 - chunks.flatten.length % 64) % 64 ≤ sha1Pad.length by rw [sha1Pad, List.length_cons, List.length_replicate]; omega)
  rw [sha1Pad_take (by omega)] at hctx₁
  have hpadlen := sha1Padlen_eq order chunks.flatten.length
  rw [← hctx.size] at hpadlen
  have hlen8 : (sha1Padlen order ctx.size).length = 8 := by rw [hpadlen, List.length_map, List.length_range]
  obtain ⟨ctx₂, hbits, hctx₂⟩ := blkSha1Update_holds order junk hctx₁ (sha1Padlen order ctx.size)
    hlen8.ge
  rw [List.take_of_length_le hlen8.le, hpadlen, List.append_assoc] at hctx₂
  rw [sha1Chunks, hrun, Option.bind_some, blkSha1Final, hzeros, hpad, Option.bind_some, hbits, Option.map_some]
  simp only [storeWord_htonl]
  rw [hctx₂.hash]
  rfl

end machine

/-- The digest of the standard's first example. -/
example : sha1Chunks .little (fun _ => 7) (fun _ => 9) [ascii "a".toList, [], ascii "bc".toList] =
    some [0xa9, 0x99, 0x3e, 0x36, 0x47, 0x06, 0x81, 0x6a, 0xba, 0x3e, 0x25, 0x71, 0x78, 0x50, 0xc2, 0x6c, 0x9c, 0xd0,
      0xd8, 0x9d] := by
  decide +kernel

end Monkey.Auth
