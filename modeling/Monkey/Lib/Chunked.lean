import Monkey.Lib.CString

/-!
# Monkey.Lib.Chunked

The chunked transfer coding of HTTP/1.1: a body in chunks, each behind its length in
hexadecimal digits, and a last chunk of length zero.  `dechunk` accepts such an encoding
and nothing else; what a writer has put into chunks so far is `InChunks`.
-/

namespace Monkey

def crlf : Bytes := [0x0d, 0x0a]

/-! ## hexadecimal numbers -/

/-- `%x` of `printf`. -/
def printfX (n : Nat) : Bytes := (Nat.toDigits 16 n).map fun c => UInt8.ofNat c.toNat

/-- The value of a hexadecimal digit. -/
def hexDigitValue (c : UInt8) : Option Nat :=
  if 0x30 ≤ c ∧ c ≤ 0x39 then some (c.toNat - 0x30)
  else if 0x61 ≤ c ∧ c ≤ 0x66 then some (c.toNat - 0x57)
  else if 0x41 ≤ c ∧ c ≤ 0x46 then some (c.toNat - 0x37)
  else none

def isxdigit (c : UInt8) : Bool := (hexDigitValue c).isSome

/-- The value of a number in hexadecimal digits. -/
def hexValue (ds : Bytes) : Nat := ds.foldl (fun acc c => acc * 16 + (hexDigitValue c).getD 0) 0

theorem hexDigitValue_digitChar {n : Nat} (h : n < 16) :
    hexDigitValue (UInt8.ofNat n.digitChar.toNat) = some n := by
  have hall : ∀ n < 16, hexDigitValue (UInt8.ofNat n.digitChar.toNat) = some n := by decide
  exact hall n h

theorem printfX_of_lt {n : Nat} (h : n < 16) : printfX n = [UInt8.ofNat n.digitChar.toNat] := by
  rw [printfX, Nat.toDigits_of_lt_base h]
  rfl

theorem printfX_of_le {n : Nat} (h : 16 ≤ n) :
    printfX n = printfX (n / 16) ++ [UInt8.ofNat (n % 16).digitChar.toNat] := by
  rw [printfX, Nat.toDigits_of_base_le (by decide) h, List.map_append]
  rfl

/-- What `printfX` writes: digits, whose value is the number. -/
theorem printfX_spec (n : Nat) :
    (∀ c ∈ printfX n, isxdigit c = true) ∧ hexValue (printfX n) = n ∧ printfX n ≠ [] := by
  induction n using Nat.strongRecOn with
  | ind n ih =>
      by_cases hn : n < 16
      · have hvalue := hexDigitValue_digitChar hn
        rw [printfX_of_lt hn]
        refine ⟨?_, ?_, List.cons_ne_nil _ _⟩
        · intro c hc
          rw [List.mem_singleton.mp hc, isxdigit, hvalue]
          rfl
        · simp [hexValue, hvalue]
      · have hle := not_lt.mp hn
        have hvalue := hexDigitValue_digitChar (Nat.mod_lt n (by decide : 16 > 0))
        obtain ⟨hdigits, hnum, -⟩ := ih (n / 16) (Nat.div_lt_self (by omega) (by decide))
        rw [printfX_of_le hle]
        refine ⟨?_, ?_, by simp⟩
        · intro c hc
          rcases List.mem_append.mp hc with hc | hc
          · exact hdigits c hc
          · rw [List.mem_singleton.mp hc, isxdigit, hvalue]
            rfl
        · rw [hexValue, List.foldl_append, ← hexValue, hnum]
          simp only [List.foldl_cons, List.foldl_nil, hvalue, Option.getD_some]
          omega

/-! ## chunks -/

/-- One chunk. -/
def chunk (piece : Bytes) : Bytes := printfX piece.length ++ crlf ++ piece ++ crlf

/-- The last chunk, and the end of the message. -/
def lastChunk : Bytes := 0x30 :: crlf ++ crlf

/-- `enc` is `body` in chunks. -/
def InChunks (enc body : Bytes) : Prop :=
  ∃ pieces : List Bytes, [] ∉ pieces ∧ enc = pieces.flatMap chunk ∧ body = pieces.flatten

theorem InChunks.nil : InChunks [] [] := ⟨[], by simp, rfl, rfl⟩

theorem InChunks.snoc {enc body piece : Bytes} (h : InChunks enc body) (hpiece : piece ≠ []) :
    InChunks (enc ++ chunk piece) (body ++ piece) := by
  obtain ⟨pieces, hne, rfl, rfl⟩ := h
  refine ⟨pieces ++ [piece], ?_, by simp, by simp⟩
  intro hmem
  rcases List.mem_append.mp hmem with hmem | hmem
  · exact hne hmem
  · exact hpiece (List.mem_singleton.mp hmem).symm

/-! ## reading it back -/

/-- What follows a line end. -/
def afterCrlf : Bytes → Option Bytes
  | 0x0d :: 0x0a :: s => some s
  | _ => none

/-- The body of at most `fuel` chunks, the last one included. -/
def dechunkFrom : Nat → Bytes → Option Bytes
  | 0, _ => none
  | fuel + 1, s =>
      let size := s.takeWhile isxdigit
      if size = [] then none
      else
        (afterCrlf (s.dropWhile isxdigit)).bind fun data =>
          if hexValue size = 0 then if data = crlf then some [] else none
          else if data.length < hexValue size then none
          else
            (afterCrlf (data.drop (hexValue size))).bind fun s =>
              (dechunkFrom fuel s).map (data.take (hexValue size) ++ ·)

/-- The body of a message in chunks. -/
def dechunk (s : Bytes) : Option Bytes := dechunkFrom s.length s

@[simp] theorem afterCrlf_crlf (s : Bytes) : afterCrlf (crlf ++ s) = some s := rfl

theorem size_line (n : Nat) (s : Bytes) : (printfX n ++ (crlf ++ s)).takeWhile isxdigit = printfX n ∧
    (printfX n ++ (crlf ++ s)).dropWhile isxdigit = crlf ++ s := by
  have hdigits := (printfX_spec n).1
  have hstop : (crlf ++ s).takeWhile isxdigit = [] := rfl
  have hrest : (crlf ++ s).dropWhile isxdigit = crlf ++ s := rfl
  rw [List.takeWhile_append_of_pos hdigits, List.dropWhile_append_of_pos hdigits, hstop, hrest,
    List.append_nil]
  exact ⟨rfl, rfl⟩

/-- A chunk ends where its size says. -/
theorem chunk_append_inj {piece piece' s s' : Bytes} (h : chunk piece ++ s = chunk piece' ++ s') :
    piece = piece' ∧ s = s' := by
  have hshape : ∀ p t : Bytes, chunk p ++ t = printfX p.length ++ (crlf ++ (p ++ (crlf ++ t))) := by simp [chunk]
  rw [hshape, hshape] at h
  have hsize : printfX piece.length = printfX piece'.length := by
    rw [← (size_line piece.length _).1, h, (size_line piece'.length _).1]
  have hlength : piece.length = piece'.length := by
    rw [← (printfX_spec piece.length).2.1, hsize, (printfX_spec piece'.length).2.1]
  rw [hsize] at h
  obtain ⟨hpiece, hrest⟩ := List.append_inj (List.append_cancel_left (List.append_cancel_left h)) hlength
  exact ⟨hpiece, List.append_cancel_left hrest⟩

/-- Chunks are those of one list of pieces. -/
theorem flatMap_chunk_inj {pieces pieces' : List Bytes} (hlength : pieces.length = pieces'.length) {s s' : Bytes}
    (h : pieces.flatMap chunk ++ s = pieces'.flatMap chunk ++ s') : pieces = pieces' := by
  induction pieces generalizing pieces' with
  | nil => exact (List.eq_nil_of_length_eq_zero hlength.symm).symm
  | cons piece pieces ih =>
      obtain ⟨piece', pieces', rfl⟩ := List.exists_cons_of_length_eq_add_one hlength.symm
      rw [List.flatMap_cons, List.flatMap_cons, List.append_assoc, List.append_assoc] at h
      obtain ⟨rfl, hrest⟩ := chunk_append_inj h
      rw [ih (Nat.succ.inj hlength) hrest]

/-- One chunk is read back. -/
theorem dechunkFrom_chunk {piece : Bytes} (hpiece : piece ≠ []) (fuel : Nat) (s : Bytes) :
    dechunkFrom (fuel + 1) (chunk piece ++ s) = (dechunkFrom fuel s).map (piece ++ ·) := by
  obtain ⟨-, hvalue, hsize⟩ := printfX_spec piece.length
  obtain ⟨htake, hdrop⟩ := size_line piece.length (piece ++ (crlf ++ s))
  have hpos : piece.length ≠ 0 := by simpa using hpiece
  have hshape : chunk piece ++ s = printfX piece.length ++ (crlf ++ (piece ++ (crlf ++ s))) := by
    simp [chunk]
  rw [hshape, dechunkFrom, htake, hdrop]
  simp only [afterCrlf_crlf, Option.bind_some, hvalue]
  rw [if_neg hsize, if_neg hpos, if_neg (by simp), List.drop_left, List.take_left]
  rfl

theorem dechunkFrom_lastChunk (fuel : Nat) : dechunkFrom (fuel + 1) lastChunk = some [] := rfl

theorem dechunkFrom_flatMap {pieces : List Bytes} (hne : [] ∉ pieces) (fuel : Nat) (s : Bytes) :
    dechunkFrom (pieces.length + fuel) (pieces.flatMap chunk ++ s) =
      (dechunkFrom fuel s).map (pieces.flatten ++ ·) := by
  induction pieces with
  | nil => simp
  | cons piece pieces ih =>
      have hpiece : piece ≠ [] := fun h => hne (h ▸ List.mem_cons_self)
      have hrest : [] ∉ pieces := fun h => hne (List.mem_cons_of_mem _ h)
      have hfuel : (piece :: pieces).length + fuel = pieces.length + fuel + 1 := by
        rw [List.length_cons]
        omega
      rw [List.flatMap_cons, List.append_assoc, hfuel, dechunkFrom_chunk hpiece, ih hrest, Option.map_map]
      congr 1
      funext t
      simp

theorem length_le_flatMap_chunk (pieces : List Bytes) : pieces.length ≤ (pieces.flatMap chunk).length := by
  have hone : ∀ n ∈ pieces.map fun piece => (chunk piece).length, 1 ≤ n := by
    intro n hn
    obtain ⟨piece, -, rfl⟩ := List.mem_map.mp hn
    simp only [chunk, crlf, List.length_append, List.length_cons]
    omega
  calc pieces.length = (pieces.map fun piece => (chunk piece).length).length := by rw [List.length_map]
    _ ≤ (pieces.map fun piece => (chunk piece).length).sum := List.length_le_sum_of_one_le _ hone
    _ = (pieces.flatMap chunk).length := by rw [List.length_flatMap]

/-- **Chunks are read back**, once the last one is written. -/
theorem InChunks.dechunk {enc body : Bytes} (h : InChunks enc body) :
    dechunk (enc ++ lastChunk) = some body := by
  obtain ⟨pieces, hne, rfl, rfl⟩ := h
  have hle := length_le_flatMap_chunk pieces
  have hlast : lastChunk.length = 5 := rfl
  obtain ⟨fuel, hfuel⟩ : ∃ fuel, (pieces.flatMap chunk ++ lastChunk).length = pieces.length + (fuel + 1) := by
    refine ⟨(pieces.flatMap chunk).length + 4 - pieces.length, ?_⟩
    rw [List.length_append, hlast]
    omega
  rw [Monkey.dechunk, hfuel, dechunkFrom_flatMap hne, dechunkFrom_lastChunk]
  simp

/-! ## a body with or without chunks -/

/-- `enc` is `body`, in chunks or as it is. -/
def Framed (chunked : Bool) (enc body : Bytes) : Prop :=
  if chunked then InChunks enc body else enc = body

/-- `enc` is the whole encoding of `body`: a message in chunks with its last one, or the
body itself. -/
def Encodes (chunked : Bool) (enc body : Bytes) : Prop :=
  if chunked then dechunk enc = some body else enc = body

/-- One piece as it is written. -/
def framePiece (chunked : Bool) (piece : Bytes) : Bytes := if chunked then chunk piece else piece

/-- What closes the encoding. -/
def frameEnd (chunked : Bool) : Bytes := if chunked then lastChunk else []

theorem Framed.nil (chunked : Bool) : Framed chunked [] [] := by
  cases chunked
  · exact rfl
  · exact InChunks.nil

theorem Framed.snoc {chunked : Bool} {enc body piece : Bytes} (h : Framed chunked enc body)
    (hpiece : piece ≠ []) : Framed chunked (enc ++ framePiece chunked piece) (body ++ piece) := by
  cases chunked with
  | false =>
      have henc : enc = body := h
      subst henc
      exact rfl
  | true => exact InChunks.snoc h hpiece

theorem Framed.close {chunked : Bool} {enc body : Bytes} (h : Framed chunked enc body) :
    Encodes chunked (enc ++ frameEnd chunked) body := by
  cases chunked with
  | false =>
      have henc : enc = body := h
      subst henc
      exact List.append_nil _
  | true => exact InChunks.dechunk h

/-- An encoding has one body. -/
theorem Encodes.unique {chunked : Bool} {enc body body' : Bytes} (h : Encodes chunked enc body)
    (h' : Encodes chunked enc body') : body = body' := by
  cases chunked with
  | false => exact Eq.trans (Eq.symm h) h'
  | true => exact Option.some.inj (Eq.trans (Eq.symm h) h')

end Monkey
