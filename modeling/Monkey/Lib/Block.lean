import Monkey.Lib.Extent

/-!
# Monkey.Lib.Block

A block of memory as the list of its bytes.  Reading or writing outside it has no
result, so that what a chain of accesses returns is also the proof that they were
all inside.
-/

namespace Monkey

/-- Writing `bs` from position `i` on. -/
def writeAt (block : Bytes) (i : Nat) (bs : Bytes) : Option Bytes :=
  if i + bs.length ≤ block.length then some (fillAt block i bs) else none

/-- Reading `n` bytes from position `i` on. -/
def readAt (block : Bytes) (i n : Nat) : Option Bytes :=
  if i + n ≤ block.length then some ((block.drop i).take n) else none

/-- A new block of `n` bytes, with what the memory holds. -/
def newBuffer (junk : Nat → UInt8) (n : Nat) : Bytes := (List.range n).map junk

theorem length_newBuffer (junk : Nat → UInt8) (n : Nat) : (newBuffer junk n).length = n := by
  rw [newBuffer, List.length_map, List.length_range]

variable {block block' bs cs : Bytes} {i n : Nat}

/-! ## one access -/

theorem writeAt_of_le (h : i + bs.length ≤ block.length) : writeAt block i bs = some (fillAt block i bs) := if_pos h

theorem writeAt_eq_some (h : writeAt block i bs = some block') :
    i + bs.length ≤ block.length ∧ block' = fillAt block i bs := by
  unfold writeAt at h
  split at h
  · next hle => exact ⟨hle, (Option.some.inj h).symm⟩
  · contradiction

/-- The whole middle of a block is replaced. -/
theorem fillAt_middle (pre mid post : Bytes) (h : bs.length = mid.length) :
    fillAt (pre ++ mid ++ post) pre.length bs = pre ++ bs ++ post := by
  rw [fillAt, List.append_assoc pre, List.take_left' rfl, h, ← List.length_append, ← List.append_assoc pre,
    List.drop_left' rfl]

theorem writeAt_middle (pre mid post : Bytes) (h : bs.length = mid.length) :
    writeAt (pre ++ mid ++ post) pre.length bs = some (pre ++ bs ++ post) := by
  rw [writeAt_of_le (by simp [h]), fillAt_middle pre mid post h]

theorem readAt_middle (pre mid post : Bytes) :
    readAt (pre ++ mid ++ post) pre.length mid.length = some mid := by
  have hle : pre.length + mid.length ≤ (pre ++ mid ++ post).length := by simp
  rw [readAt, if_pos hle, List.append_assoc, List.drop_left' rfl, List.take_left' rfl]

/-! ## copying a string -/

/-- The bytes that `strncpy` stores: the string, filled up with NULs. -/
def strncpyText (src : Bytes) (n : Nat) : Bytes :=
  cstr (src.take n) ++ List.replicate (n - (cstr (src.take n)).length) 0

theorem length_strncpyText (src : Bytes) (n : Nat) : (strncpyText src n).length = n := by
  have hle := (cstr_length_le (src.take n)).trans (List.length_take_le n src)
  rw [strncpyText, List.length_append, List.length_replicate]
  omega

theorem cstr_strncpyText (src : Bytes) (n : Nat) : cstr (strncpyText src n) = cstr (src.take n) := by
  unfold strncpyText
  cases hpad : n - (cstr (src.take n)).length with
  | zero => rw [List.replicate_zero, List.append_nil, cstr_eq_self (zero_notMem_cstr _)]
  | succ k => rw [List.replicate_succ, cstr_append_nul, cstr_eq_self (zero_notMem_cstr _)]

/-- A text without NUL at the start of the string is copied. -/
theorem isPrefix_strncpyText {u : Bytes} (h0 : 0 ∉ u) (w : Bytes) {n : Nat} (hn : u.length ≤ n) :
    u <+: strncpyText (u ++ w) n := by
  refine List.IsPrefix.trans ?_ (List.prefix_append _ _)
  rw [List.take_append, List.take_of_length_le hn, cstr_append h0]
  exact List.prefix_append _ _

/-- A string that is copied with a NUL behind it. -/
theorem cstr_copied {i n : Nat} {block src : Bytes} (h : i + n ≤ block.length) :
    cstr ((fillAt (fillAt block i (strncpyText src n)) (i + n) [0]).drop i) = cstr (src.take n) := by
  have hlen := length_strncpyText src n
  have htake := take_fillAt (show i ≤ block.length by omega) (strncpyText src n)
  have hi : (block.take i).length = i := List.length_take_of_le (by omega)
  rw [hlen] at htake
  rw [fillAt, htake, List.append_assoc, List.append_assoc, List.drop_left' hi, List.singleton_append,
    cstr_append_nul, cstr_strncpyText]

/-! ## writing on -/

/-- Bytes written one after the other. -/
theorem writeAt_append (h : writeAt block i bs = some block') :
    writeAt block' (i + bs.length) cs = writeAt block i (bs ++ cs) := by
  obtain ⟨hle, rfl⟩ := writeAt_eq_some h
  unfold writeAt
  rw [length_fillAt hle, List.length_append, Nat.add_assoc]
  refine if_congr Iff.rfl (congrArg some ?_) rfl
  have hdrop : (fillAt block i bs).drop (i + bs.length + cs.length) =
      block.drop (i + (bs ++ cs).length) := by
    rw [← List.drop_drop, drop_fillAt (by omega), List.drop_drop, List.length_append, Nat.add_assoc]
  rw [fillAt, take_fillAt (by omega), hdrop, fillAt, List.append_assoc (block.take i)]

/-- Bytes at the front of a block. -/
theorem writeAt_front (h : bs.length ≤ block.length) : writeAt block 0 bs = some (bs ++ block.drop bs.length) := by
  rw [writeAt_of_le (by omega), fillAt, List.take_zero, List.nil_append, Nat.zero_add]

/-- Bytes that fill a block. -/
theorem writeAt_all (h : bs.length = block.length) : writeAt block 0 bs = some bs := by
  rw [writeAt_front h.le, h, List.drop_length, List.append_nil]

end Monkey
