import Monkey.Lib.CString

/-!
# Monkey.Lib.Fgets

A text stream read with `fgets`: in lines, and in pieces of a line that is longer than
the buffer.
-/

namespace Monkey

/-- The pieces that `fgets(buf, size, f)` returns one after the other; `buf` is what it has
stored of the next one. -/
def fgetsFrom (size : Nat) : Bytes → Bytes → List Bytes
  | buf, [] => if buf = [] then [] else [buf]
  | buf, c :: s =>
      if c = 0x0a ∨ buf.length + 2 = size then (buf ++ [c]) :: fgetsFrom size [] s
      else fgetsFrom size (buf ++ [c]) s

def fgetsAll (size : Nat) (s : Bytes) : List Bytes := fgetsFrom size [] s

/-- The text of the line that goes on at a position. -/
def lineText (s : Bytes) (off : Nat) : Bytes := (s.drop off).takeWhile (· ≠ 0x0a)

/-- A position at which a line begins. -/
def LineStart (s : Bytes) (off : Nat) : Prop := off = 0 ∨ s[off - 1]? = some 0x0a

instance (s : Bytes) (off : Nat) : Decidable (LineStart s off) :=
  inferInstanceAs (Decidable (off = 0 ∨ _))

variable {size : Nat}

/-- Nothing is lost between the pieces. -/
theorem flatten_fgetsFrom (buf s : Bytes) : (fgetsFrom size buf s).flatten = buf ++ s := by
  induction s generalizing buf with
  | nil =>
      rw [fgetsFrom]
      split <;> simp [*]
  | cons c s ih =>
      rw [fgetsFrom]
      split <;> simp [ih]

theorem flatten_fgetsAll (s : Bytes) : (fgetsAll size s).flatten = s := flatten_fgetsFrom [] s

/-- A piece is not empty, and holds a newline at its end only. -/
theorem mem_fgetsFrom {buf s p : Bytes} (hbuf : 0x0a ∉ buf) (h : p ∈ fgetsFrom size buf s) :
    p ≠ [] ∧ 0x0a ∉ p.dropLast := by
  induction s generalizing buf with
  | nil =>
      rw [fgetsFrom] at h
      split at h
      · contradiction
      · next hne =>
          obtain rfl := List.mem_singleton.mp h
          exact ⟨hne, fun hmem => hbuf (List.mem_of_mem_dropLast hmem)⟩
  | cons c s ih =>
      rw [fgetsFrom] at h
      split at h
      · rcases List.mem_cons.mp h with rfl | h
        · simpa using hbuf
        · exact ih List.not_mem_nil h
      · next hc =>
          refine ih (fun hmem => ?_) h
          rcases List.mem_append.mp hmem with hmem | hmem
          · exact hbuf hmem
          · exact hc (.inl (List.mem_singleton.mp hmem).symm)

/-- A line that fits is one piece. -/
theorem fgetsFrom_line {buf l : Bytes} (hl : 0x0a ∉ l) (hsize : buf.length + l.length + 1 < size) (s : Bytes) :
    fgetsFrom size buf (l ++ 0x0a :: s) = (buf ++ l ++ [0x0a]) :: fgetsFrom size [] s := by
  induction l generalizing buf with
  | nil => simp [fgetsFrom]
  | cons c l ih =>
      obtain ⟨hc, hl⟩ := not_or.mp fun h => hl (List.mem_cons.mpr h)
      rw [List.length_cons] at hsize
      have hgo : ¬ (c = 0x0a ∨ buf.length + 2 = size) := not_or.mpr ⟨Ne.symm hc, by omega⟩
      rw [List.cons_append, fgetsFrom, if_neg hgo,
        ih hl (by rw [List.length_append, List.length_singleton]; omega)]
      simp

theorem fgetsAll_line {l : Bytes} (hl : 0x0a ∉ l) (hsize : l.length + 1 < size) (s : Bytes) :
    fgetsAll size (l ++ 0x0a :: s) = (l ++ [0x0a]) :: fgetsAll size s := by
  have hempty : ([] : Bytes).length + l.length + 1 < size := by simpa using hsize
  exact fgetsFrom_line hl hempty s

/-- Lines that fit are read one by one. -/
theorem fgetsAll_lines {ls : List Bytes} (hls : ∀ l ∈ ls, 0x0a ∉ l ∧ l.length + 1 < size) :
    fgetsAll size (ls.flatMap (· ++ [0x0a])) = ls.map (· ++ [0x0a]) := by
  induction ls with
  | nil => rfl
  | cons l ls ih =>
      obtain ⟨⟨hl, hsize⟩, hls⟩ := List.forall_mem_cons.mp hls
      rw [List.flatMap_cons, List.append_assoc, List.singleton_append, fgetsAll_line hl hsize, ih hls,
        List.map_cons]

end Monkey
