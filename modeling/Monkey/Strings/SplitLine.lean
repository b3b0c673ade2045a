import Monkey.Config.Hosts
import Monkey.Lib.CInt
import Monkey.Lib.Tokens
import Monkey.Strings

/-!
# Monkey.Strings.SplitLine

`mk_string_split_line` with the widths of its integers: the length of the line is an
`unsigned int`, the positions of the blanks are `int`, and a length given to the search is an
`int` too.  A line is split into its words as long as all of them end in front of the largest
`int`, and in front of what is left of the length.

There is no result for bytes that are not the line's: a search that runs past the end of the
string, or a copy from in front of it.
-/

namespace Monkey.SplitLine

/-- `mk_string_char_search`: a negative length is replaced by that of the string, which is
made an `int` again before `memchr` takes it. -/
def mkStringCharSearch (string : Bytes) (c : UInt8) (len : Int) : Option Int :=
  let len := if len < 0 then toInt (strlen string) else len
  match memchr (cstr string ++ [0]) c (toULong len) with
  | some p => some (toInt p)
  | none => if toULong len ≤ strlen string + 1 then some (-1) else none

/-- `mk_string_copy_substr`: `NULL` when the positions are reversed. -/
def mkStringCopySubstr (string : Bytes) (posInit posEnd : Int) : Option (Option Bytes) :=
  if posInit > posEnd then some none
  else if 0 ≤ posInit ∧ posEnd ≤ strlen string + 1 then
    some (some (((cstr string ++ [0]).drop posInit.toNat).take (posEnd - posInit).toNat))
  else none

/-- `struct mk_string_line`. -/
structure MkStringLine where
  val : Option Bytes
  len : Nat
deriving DecidableEq, Repr

/-- The loop of `mk_string_split_line`, for at most so many tests. -/
def splitLineLoop (line : Bytes) (len : Nat) : Nat → Nat → Option (List MkStringLine)
  | 0, _ => none
  | fuel + 1, i =>
      if i < len then
        (mkStringCharSearch (line.drop i) 0x20 (toInt (len - i))).bind fun stop =>
          if 0 ≤ stop ∧ toUInt (stop + i) < len then
            let stop := toInt (stop + i)
            -- a blank where a word would start
            if i = toUInt stop then splitLineLoop line len fuel (i + 1)
            else
              (mkStringCopySubstr line (toInt i) stop).bind fun val =>
                (splitLineLoop line len fuel (toUInt (stop + 1))).map (⟨val, toUInt (stop - i)⟩ :: ·)
          else
            -- no blank was found, or one whose position is lost: what is left is the word
            let stop := toInt len
            (mkStringCopySubstr line (toInt i) stop).bind fun val =>
              (splitLineLoop line len fuel (toUInt (stop + 1))).map (⟨val, len - i⟩ :: ·)
      else some []

/-- `mk_string_split_line`. -/
def mkStringSplitLine (fuel : Nat) (line : Bytes) : Option (List MkStringLine) :=
  splitLineLoop line (toUInt (strlen line)) fuel 0

/-! ## the words -/

/-- A word with its length. -/
def wordNode (w : Bytes) : MkStringLine := ⟨some w, w.length⟩

/-- The words of a line: its longest pieces without blanks that are not empty. -/
def lineWords (line : Bytes) : List Bytes := words (· == 0x20) (cstr line)

/-- Up to where the words of a line are read: the length as an `unsigned int`, and the
largest `int`. -/
def readable (line : Bytes) : Nat := min (2 ^ 31 - 1) (toUInt (strlen line))

/-- There are only blanks behind. -/
def WordsFit (line : Bytes) : Prop := ∀ c ∈ (cstr line).drop (readable line), c = 0x20

/-- A word is the only one of itself. -/
theorem words_of_notMem {w : Bytes} (hne : w ≠ []) (hw : 0x20 ∉ w) : words (· == 0x20) w = [w] := by
  refine words_of_no_delim hne fun c hc => ?_
  rw [beq_eq_false_iff_ne]
  rintro rfl
  exact hw hc

section line

variable {line : Bytes} {i : Nat}

/-! ## positions -/

theorem cstr_drop (h : i ≤ strlen line) : cstr (line.drop i) = (cstr line).drop i := by
  induction line generalizing i with
  | nil => rw [List.drop_nil, cstr, List.takeWhile_nil, List.drop_nil]
  | cons c line ih =>
      cases i with
      | zero => rfl
      | succ i =>
          by_cases hc : c ≠ 0
          · have hcons : cstr (c :: line) = c :: cstr line := List.takeWhile_cons_of_pos (decide_eq_true hc)
            rw [strlen, hcons, List.length_cons] at h
            rw [hcons, List.drop_succ_cons, List.drop_succ_cons, ih (Nat.le_of_succ_le_succ h)]
          · have hnil : cstr (c :: line) = [] := List.takeWhile_cons_of_neg (by simpa using hc)
            rw [strlen, hnil] at h
            exact absurd h (Nat.not_succ_le_zero i)

theorem strlen_drop (h : i ≤ strlen line) : strlen (line.drop i) = strlen line - i := by
  rw [strlen, cstr_drop h, List.length_drop, strlen]

theorem len_le (line : Bytes) : toUInt (strlen line) ≤ strlen line := by
  unfold toUInt
  omega

theorem len_lt (line : Bytes) : toUInt (strlen line) < 2 ^ 32 := by
  unfold toUInt
  omega

/-! ## one search -/

/-- What the search looks for is found, when its length reaches there. -/
theorem mkStringCharSearch_found {string w t : Bytes} {c : UInt8} {len : Int} (hstring : cstr string = w ++ c :: t)
    (hw : c ∉ w) (hlen : w.length < toULong (if len < 0 then toInt (strlen string) else len)) (hsmall : w.length < 2 ^ 31) :
    mkStringCharSearch string c len = some (w.length : Int) := by
  have hfound : memchr (cstr string ++ [0]) c (toULong (if len < 0 then toInt (strlen string) else len)) =
      some w.length := by
    rw [hstring, List.append_assoc, List.cons_append, memchr_append_cons hw _ hlen]
  rw [mkStringCharSearch, hfound]
  simp only
  rw [toInt_eq_self (by omega) (by omega)]

/-- It is not found when it is not there. -/
theorem mkStringCharSearch_missing {string : Bytes} {c : UInt8} {n : Nat} (hn : n ≤ strlen string) (hlen : n < 2 ^ 31)
    (hc : c ∉ (cstr string).take n) : mkStringCharSearch string c n = some (-1) := by
  have hsize : toULong (n : Int) = n := by
    unfold toULong
    omega
  have hmissing : memchr (cstr string ++ [0]) c n = none := by
    rw [memchr, List.take_append_of_le_length hn]
    exact findIdx?_eq_none hc
  rw [mkStringCharSearch, if_neg (by omega), hsize, hmissing]
  exact if_pos (by omega)

/-- A piece of the line is copied as it is. -/
theorem mkStringCopySubstr_eq {stop : Nat} (hi : i ≤ stop) (hstop : stop ≤ strlen line) :
    mkStringCopySubstr line i stop = some (some (((cstr line).drop i).take (stop - i))) := by
  have hsize : ((stop : Int) - i).toNat = stop - i := by omega
  have hin : stop - i ≤ ((cstr line).drop i).length := by
    rw [List.length_drop]
    exact Nat.sub_le_sub_right hstop i
  rw [mkStringCopySubstr, if_neg (by omega), if_pos ⟨by omega, by omega⟩, Int.toNat_natCast, hsize,
    List.drop_append_of_le_length (hi.trans hstop), List.take_append_of_le_length hin]

/-- Nothing else is copied. -/
theorem mkStringCopySubstr_some {a b : Int} {v : Bytes} (h : mkStringCopySubstr line a b = some (some v)) :
    0 ≤ a ∧ a ≤ b := by
  unfold mkStringCopySubstr at h
  split at h
  · cases h
  · next hle =>
      split at h
      · next hin => exact ⟨hin.1, by omega⟩
      · cases h

/-! ## a line that fits -/

theorem readable_le_len (line : Bytes) : readable line ≤ toUInt (strlen line) := Nat.min_le_right _ _

theorem readable_lt (line : Bytes) : readable line < 2 ^ 31 := by
  unfold readable
  omega

/-- No word of it ends behind what is read. -/
theorem WordsFit.end_le (hfit : WordsFit line) {w t : Bytes} (hrest : (cstr line).drop i = w ++ t) (hw : 0x20 ∉ w)
    (hne : w ≠ []) : i + w.length ≤ readable line := by
  obtain ⟨w, c, rfl⟩ := (List.eq_nil_or_concat' w).resolve_left hne
  by_contra hlt
  rw [List.length_append, List.length_singleton] at hlt
  have hlast : c ∈ (cstr line).drop (i + w.length) := by
    rw [← List.drop_drop, hrest, List.append_assoc, List.drop_left]
    exact List.mem_cons_self
  have hreach : i + w.length = readable line + (i + w.length - readable line) := by omega
  rw [hreach, ← List.drop_drop] at hlast
  rw [hfit c (List.mem_of_mem_drop hlast)] at hw
  exact hw (List.mem_append_right w List.mem_cons_self)

/-- The search finds the end of a word that ends in front of another one. -/
theorem search_blank (hfit : WordsFit line) {w t : Bytes} (hi : i < toUInt (strlen line))
    (hrest : (cstr line).drop i = w ++ 0x20 :: t) (hw : 0x20 ∉ w) (hin : i + w.length < toUInt (strlen line)) :
    mkStringCharSearch (line.drop i) 0x20 (toInt (toUInt (strlen line) - i)) = some (w.length : Int) := by
  have hlen := len_le line
  have hsmall : w.length < 2 ^ 31 := by
    by_cases hne : w = []
    · rw [hne]
      exact Nat.two_pow_pos 31
    · have hend := hfit.end_le hrest hw hne
      have hread := readable_lt line
      omega
  refine mkStringCharSearch_found ((cstr_drop (by omega)).trans hrest) hw ?_ hsmall
  have hleft : toInt (strlen (line.drop i)) = toInt (toUInt (strlen line) - i) := by
    rw [strlen_drop (by omega), toInt_toUInt_sub, Nat.cast_sub (by omega)]
  -- a length that is negative as an `int` stays so when it is replaced, and reaches everywhere
  rw [hleft, ite_self]
  by_cases hpos : (toUInt (strlen line) - i : Int) < 2 ^ 31
  · rw [toInt_eq_self (by omega) hpos]
    unfold toULong
    omega
  · have hbound := len_lt line
    rw [toInt_eq_sub (by omega) (by omega)]
    unfold toULong
    omega

/-- When no word ends in front of another one, there is one left, and it is as long as what is
left of the length. -/
theorem WordsFit.last (hfit : WordsFit line) (hi : i < toUInt (strlen line))
    (hlast : ∀ w t, (cstr line).drop i = w ++ 0x20 :: t → 0x20 ∉ w → toUInt (strlen line) ≤ i + w.length) :
    ∃ v, (cstr line).drop i = v ++ (cstr line).drop (toUInt (strlen line)) ∧ 0x20 ∉ v ∧
      i + v.length = toUInt (strlen line) ∧ toUInt (strlen line) = readable line := by
  have hlen := len_le line
  have hwhole := List.take_append_drop (toUInt (strlen line) - i) ((cstr line).drop i)
  have hlength : (((cstr line).drop i).take (toUInt (strlen line) - i)).length = toUInt (strlen line) - i := by
    rw [List.length_take, List.length_drop]
    exact Nat.min_eq_left (Nat.sub_le_sub_right hlen i)
  rw [List.drop_drop, Nat.add_sub_cancel' hi.le] at hwhole
  have hfree : 0x20 ∉ ((cstr line).drop i).take (toUInt (strlen line) - i) := by
    intro hmem
    obtain ⟨w, t, hsplit, hw⟩ := List.eq_append_cons_of_mem hmem
    have hreach := hlast w (t ++ (cstr line).drop (toUInt (strlen line))) ?_ hw
    · rw [hsplit, List.length_append, List.length_cons] at hlength
      omega
    · rw [← hwhole, hsplit, List.append_assoc, List.cons_append]
  refine ⟨_, hwhole.symm, hfree, by rw [hlength]; omega, ?_⟩
  have hend := hfit.end_le hwhole.symm hfree (List.length_pos_iff.mp (by omega))
  have hread := readable_le_len line
  omega

/-- The rest behind what is read has no words. -/
theorem WordsFit.words_drop (hfit : WordsFit line) (hi : readable line ≤ i) :
    words (· == 0x20) ((cstr line).drop i) = [] := by
  refine words_of_delims fun c hc => ?_
  rw [show i = readable line + (i - readable line) by omega, ← List.drop_drop] at hc
  exact beq_iff_eq.mpr (hfit c (List.mem_of_mem_drop hc))

/-- The words from a blank on, and from a word on that is followed by one. -/
theorem words_drop {w t : Bytes} (hrest : (cstr line).drop i = w ++ 0x20 :: t) (hw : 0x20 ∉ w) :
    words (· == 0x20) ((cstr line).drop i) =
      (if w = [] then [] else [w]) ++ words (· == 0x20) ((cstr line).drop (i + w.length + 1)) := by
  have htail : (cstr line).drop (i + w.length + 1) = t := by
    rw [add_assoc, ← List.drop_drop, hrest, ← List.drop_drop, List.drop_left, List.drop_one, List.tail_cons]
  rw [htail, hrest, words_append_cons (d := 0x20) rfl]
  by_cases hne : w = []
  · rw [if_pos hne, hne]
    rfl
  · rw [if_neg hne, words_of_notMem hne hw]

/-- One round of the loop at a word that ends in front of another one. -/
theorem splitLineLoop_blank (hfit : WordsFit line) {w t : Bytes} (hi : i < toUInt (strlen line))
    (hrest : (cstr line).drop i = w ++ 0x20 :: t) (hw : 0x20 ∉ w) (hin : i + w.length < toUInt (strlen line)) (fuel : Nat) :
    splitLineLoop line (toUInt (strlen line)) (fuel + 1) i =
      (splitLineLoop line (toUInt (strlen line)) fuel (i + w.length + 1)).map
        ((if w = [] then [] else [wordNode w]) ++ ·) := by
  have hlen := len_le line
  have hbound := len_lt line
  have hread := readable_lt line
  have hstop : ((w.length : Int) + i) = ((i + w.length : Nat) : Int) := by omega
  have hback : toUInt ((w.length : Int) + i) = i + w.length := by
    have hself := toUInt_eq_self (x := w.length + i) (by omega) (by omega)
    omega
  rw [splitLineLoop, if_pos hi, search_blank hfit hi hrest hw hin, Option.bind_some, if_pos ⟨by omega, by omega⟩]
  simp only [toUInt_toInt, hback]
  by_cases hne : w = []
  · rw [if_pos hne, hne, if_pos (by rw [List.length_nil, Nat.add_zero])]
    simp
  · have hend := hfit.end_le hrest hw hne
    have hpos := List.length_pos_iff.mpr hne
    have hcopy : ((cstr line).drop i).take (i + w.length - i) = w := by
      rw [Nat.add_sub_cancel_left, hrest, List.take_left]
    have hnext : toUInt (((i + w.length : Nat) : Int) + 1) = i + w.length + 1 := by
      unfold toUInt
      omega
    have hval : toUInt (((i + w.length : Nat) : Int) - i) = w.length := by
      unfold toUInt
      omega
    rw [if_neg hne, if_neg (by omega), hstop, toInt_eq_self (by omega) (by omega), toInt_eq_self (by omega) (by omega),
      mkStringCopySubstr_eq (by omega) (by omega), Option.bind_some, hnext, hcopy, hval]
    rfl

/-- The round at the last word. -/
theorem splitLineLoop_last {v t : Bytes} (hi : i < toUInt (strlen line)) (hrest : (cstr line).drop i = v ++ t)
    (hfree : 0x20 ∉ v) (hlength : i + v.length = toUInt (strlen line)) (hsmall : toUInt (strlen line) < 2 ^ 31)
    (fuel : Nat) :
    splitLineLoop line (toUInt (strlen line)) (fuel + 1) i =
      (splitLineLoop line (toUInt (strlen line)) fuel (toUInt (strlen line) + 1)).map (wordNode v :: ·) := by
  have hlen := len_le line
  have hcopy : ((cstr line).drop i).take (toUInt (strlen line) - i) = v := by
    rw [hrest, ← hlength, Nat.add_sub_cancel_left, List.take_left]
  have hmissing : mkStringCharSearch (line.drop i) 0x20 (toInt (toUInt (strlen line) - i)) = some (-1) := by
    rw [toInt_eq_self (by omega) (by omega), ← Nat.cast_sub hi.le]
    refine mkStringCharSearch_missing (by rw [strlen_drop (by omega)]; omega) (by omega) ?_
    rwa [cstr_drop (by omega), hcopy]
  have hnext : toUInt ((toUInt (strlen line) : Int) + 1) = toUInt (strlen line) + 1 := by
    have hself := toUInt_eq_self (x := (toUInt (strlen line) : Int) + 1) (by omega) (by omega)
    omega
  rw [splitLineLoop, if_pos hi, hmissing, Option.bind_some, if_neg fun h => absurd h.1 (by decide)]
  simp only
  rw [toInt_eq_self (by omega) (by omega), toInt_eq_self (by omega) (by omega), mkStringCopySubstr_eq (by omega) hlen,
    Option.bind_some, hnext, hcopy, show toUInt (strlen line) - i = v.length by omega]
  rfl

/-- **The loop** on a line that fits, from any position: the words from there on. -/
theorem splitLineLoop_words (hfit : WordsFit line) {fuel : Nat} (hfuel : toUInt (strlen line) - i < fuel) :
    splitLineLoop line (toUInt (strlen line)) fuel i =
      some ((words (· == 0x20) ((cstr line).drop i)).map wordNode) := by
  have hread := readable_le_len line
  induction fuel generalizing i with
  | zero => exact absurd hfuel (Nat.not_lt_zero _)
  | succ fuel ih =>
      by_cases hi : i < toUInt (strlen line)
      · by_cases hblank : ∃ w t, (cstr line).drop i = w ++ 0x20 :: t ∧ 0x20 ∉ w ∧ i + w.length < toUInt (strlen line)
        · obtain ⟨w, t, hrest, hw, hin⟩ := hblank
          rw [splitLineLoop_blank hfit hi hrest hw hin, ih (by omega), words_drop hrest hw, Option.map_some, List.map_append]
          by_cases hne : w = []
          · rw [if_pos hne, if_pos hne, List.map_nil]
          · rw [if_neg hne, if_neg hne, List.map_singleton]
        · obtain ⟨v, hrest, hfree, hlength, hwhole⟩ := hfit.last hi
            fun w t hrest hw => not_lt.mp fun hin => hblank ⟨w, t, hrest, hw, hin⟩
          have hdelims : ∀ c ∈ (cstr line).drop (toUInt (strlen line)), (c == 0x20) = true := by
            rw [hwhole]
            exact fun c hc => beq_iff_eq.mpr (hfit c hc)
          rw [splitLineLoop_last hi hrest hfree hlength (hwhole ▸ readable_lt line), ih (by omega),
            hfit.words_drop (by omega), hrest, words_append_delims v hdelims,
            words_of_notMem (List.length_pos_iff.mp (by omega)) hfree]
          rfl
      · rw [splitLineLoop, if_neg hi, hfit.words_drop (by omega)]
        rfl

/-! ## any line -/

/-- A piece copied, and what comes behind the byte after it. -/
theorem append_sublist {u v : Bytes} {vs : List Bytes} {stop : Nat} (hv : v = (u.drop i).take (stop - i)) (hi : i ≤ stop)
    (hvs : List.Sublist vs.flatten (u.drop (stop + 1))) : List.Sublist (v :: vs).flatten (u.drop i) := by
  have hsplit := List.take_append_drop (stop - i) (u.drop i)
  rw [List.drop_drop, Nat.add_sub_cancel' hi] at hsplit
  rw [← hsplit, List.flatten_cons, hv]
  refine (List.Sublist.refl _).append (hvs.trans ?_)
  rw [← List.drop_drop]
  exact List.drop_sublist 1 _

/-- A piece copied is one of what is read. -/
theorem mkStringCopySubstr_readable {stop : Int} {v : Bytes} (hi : i < 2 ^ 32) (hstop : stop < 2 ^ 31)
    (hlen : toUInt stop ≤ toUInt (strlen line)) (h : mkStringCopySubstr line (toInt i) stop = some (some v)) :
    (toUInt stop : Int) = stop ∧ i ≤ toUInt stop ∧
      v = (((cstr line).take (readable line)).drop i).take (toUInt stop - i) := by
  obtain ⟨hpos, hle⟩ := mkStringCopySubstr_some h
  have hsmall : (i : Int) < 2 ^ 31 := by
    by_contra hlarge
    rw [toInt_eq_sub (by omega) (by omega)] at hpos
    omega
  rw [toInt_eq_self (by omega) hsmall] at h hle
  have hself := toUInt_eq_self (x := stop) (by omega) (by omega)
  have hwhole := len_le line
  have hread : toUInt stop ≤ readable line := by
    unfold readable
    omega
  rw [← hself, mkStringCopySubstr_eq (by omega) (by omega)] at h
  refine ⟨hself, by omega, ?_⟩
  rw [List.drop_take, List.take_take, Nat.min_eq_left (by omega)]
  exact (Option.some.inj (Option.some.inj h)).symm

/-- **What any line is split into** comes from what is read of it, in order. -/
theorem splitLineLoop_sublist {fuel : Nat} {nodes : List MkStringLine} {vs : List Bytes}
    (h : splitLineLoop line (toUInt (strlen line)) fuel i = some nodes) (hvs : nodes.map (·.val) = vs.map some) :
    List.Sublist vs.flatten (((cstr line).take (readable line)).drop i) := by
  have hbound := len_lt line
  induction fuel generalizing i nodes vs with
  | zero => cases h
  | succ fuel ih =>
      -- both branches that make a node copy up to `stop` and go on behind it
      have hnode : ∀ {stop : Int} {val : Option Bytes} {rest : List MkStringLine} {len : Nat},
          i < toUInt (strlen line) → stop < 2 ^ 31 → toUInt stop ≤ toUInt (strlen line) →
          mkStringCopySubstr line (toInt i) stop = some val →
          splitLineLoop line (toUInt (strlen line)) fuel (toUInt (stop + 1)) = some rest →
          (⟨val, len⟩ :: rest : List MkStringLine) = nodes →
          List.Sublist vs.flatten (((cstr line).take (readable line)).drop i) := by
        intro stop val rest len hi hstop hlen hcopy hrest hnodes
        rw [← hnodes, List.map_cons] at hvs
        obtain ⟨v, vs, rfl, hv, hvs'⟩ := List.map_eq_cons_iff.mp hvs.symm
        obtain rfl : some v = val := hv
        obtain ⟨hself, hle, hcopied⟩ := mkStringCopySubstr_readable (by omega) hstop hlen hcopy
        have hnext : toUInt (stop + 1) = toUInt stop + 1 := by
          have hself' := toUInt_eq_self (x := stop + 1) (by omega) (by omega)
          omega
        rw [hnext] at hrest
        exact append_sublist hcopied hle (ih hrest hvs'.symm)
      rw [splitLineLoop] at h
      split at h
      · next hi =>
          obtain ⟨stop, -, h⟩ := Option.bind_eq_some_iff.mp h
          split at h
          · next hstop =>
              simp only at h
              split at h
              · refine (ih h hvs).trans ?_
                rw [← List.drop_drop]
                exact List.drop_sublist 1 _
              · obtain ⟨val, hcopy, h⟩ := Option.bind_eq_some_iff.mp h
                obtain ⟨rest, hrest, hnodes⟩ := Option.map_eq_some_iff.mp h
                exact hnode hi (toInt_upper _) (by rw [toUInt_toInt]; exact hstop.2.le) hcopy hrest hnodes
          · obtain ⟨val, hcopy, h⟩ := Option.bind_eq_some_iff.mp h
            obtain ⟨rest, hrest, hnodes⟩ := Option.map_eq_some_iff.mp h
            refine hnode hi (toInt_upper _) ?_ hcopy hrest hnodes
            rw [toUInt_toInt]
            unfold toUInt
            omega
      · obtain rfl := Option.some.inj h
        obtain rfl : vs = [] := List.map_eq_nil_iff.mp hvs.symm
        exact List.nil_sublist _

/-- **The words of a line are what it is split into, when all of them fit**, and only then. -/
theorem mkStringSplitLine_iff (line : Bytes) :
    (∃ fuel, mkStringSplitLine fuel line = some ((lineWords line).map wordNode)) ↔ WordsFit line := by
  constructor
  · rintro ⟨fuel, h⟩
    have hvals : ((lineWords line).map wordNode).map (·.val) = (lineWords line).map some := by
      rw [List.map_map]
      rfl
    -- the words have all the letters of the line, and only letters of what is read
    have hsub := splitLineLoop_sublist h hvals
    rw [List.drop_zero, lineWords, flatten_words] at hsub
    have hletters := (hsub.filter fun c => !(c == 0x20)).length_le
    have hsplit : (cstr line).filter (fun c => !(c == 0x20)) =
        ((cstr line).take (readable line)).filter (fun c => !(c == 0x20)) ++
          ((cstr line).drop (readable line)).filter (fun c => !(c == 0x20)) := by
      rw [← List.filter_append, List.take_append_drop]
    simp only [List.filter_filter, Bool.and_self] at hletters
    rw [hsplit, List.length_append] at hletters
    have hnone : ((cstr line).drop (readable line)).filter (fun c => !(c == 0x20)) = [] :=
      List.length_eq_zero_iff.mp (by omega)
    intro c hc
    simpa using List.filter_eq_nil_iff.mp hnone c hc
  · exact fun hfit => ⟨toUInt (strlen line) + 1, splitLineLoop_words hfit (by omega)⟩

end line

/-- A line below two gigabytes. -/
theorem WordsFit.of_strlen_lt {line : Bytes} (h : strlen line < 2 ^ 31) : WordsFit line := by
  have hread : strlen line ≤ readable line := by
    unfold readable toUInt
    omega
  intro c hc
  rw [List.drop_of_length_le hread] at hc
  exact absurd hc List.not_mem_nil

/-! ## words joined by blanks -/

/-- A text without blanks. -/
structure Word where
  text : Bytes
  ne_nil : text ≠ []
  no_blank : 0x20 ∉ text
  no_nul : 0 ∉ text

/-- Words, each with the blanks behind it; there is one at least but behind the last. -/
structure SpacedWords where
  lead : Nat
  body : List (Word × Nat)
  gaps : ∀ x ∈ body.dropLast, 0 < x.2

/-- The texts of words and of the blanks behind them. -/
def joinWords (body : List (Word × Nat)) : Bytes :=
  body.flatMap fun (w, gap) => w.text ++ List.replicate gap 0x20

namespace SpacedWords

def text (t : SpacedWords) : Bytes := List.replicate t.lead 0x20 ++ joinWords t.body

def words (t : SpacedWords) : List Bytes := t.body.map (·.1.text)

end SpacedWords

theorem words_joinWords {body : List (Word × Nat)} (hgaps : ∀ x ∈ body.dropLast, 0 < x.2) :
    words (· == 0x20) (joinWords body) = body.map (·.1.text) := by
  induction body with
  | nil => rfl
  | cons x body ih =>
      obtain ⟨w, gap⟩ := x
      have hblanks : ∀ {n : Nat}, ∀ c ∈ List.replicate n (0x20 : UInt8), (c == 0x20) = true :=
        fun c hc => beq_iff_eq.mpr (List.eq_of_mem_replicate hc)
      have hjoin : joinWords ((w, gap) :: body) = w.text ++ (List.replicate gap 0x20 ++ joinWords body) :=
        List.append_assoc ..
      rw [hjoin, List.map_cons]
      cases body with
      | nil =>
          have hend : joinWords [] = [] := rfl
          rw [hend, List.append_nil, words_append_delims _ hblanks, words_of_notMem w.ne_nil w.no_blank]
          rfl
      | cons y body =>
          rw [List.dropLast_cons_cons] at hgaps
          obtain ⟨gap, rfl⟩ : ∃ n, gap = n + 1 := Nat.exists_eq_add_one.mpr (hgaps _ List.mem_cons_self)
          rw [List.replicate_succ, List.cons_append, words_append_cons (d := 0x20) rfl,
            words_of_notMem w.ne_nil w.no_blank, words_delims_append hblanks,
            ih fun x hx => hgaps x (List.mem_cons_of_mem _ hx)]
          rfl

theorem SpacedWords.lineWords_text (t : SpacedWords) : lineWords t.text = t.words := by
  have hblanks : ∀ {n : Nat}, (0 : UInt8) ∉ List.replicate n 0x20 := fun h =>
    absurd (List.eq_of_mem_replicate h) (by decide)
  have hnul : 0 ∉ t.text := by
    intro h
    obtain h | h := List.mem_append.mp h
    · exact hblanks h
    · obtain ⟨⟨w, gap⟩, -, h⟩ := List.mem_flatMap.mp h
      obtain h | h := List.mem_append.mp h
      · exact w.no_nul h
      · exact hblanks h
  rw [lineWords, cstr_eq_self hnul, SpacedWords.text, words_delims_append, words_joinWords t.gaps]
  · rfl
  · exact fun c hc => beq_iff_eq.mpr (List.eq_of_mem_replicate hc)

/-- **Which lines are split into their words**, and which words are read back from the text
they are joined to: those with nothing but blanks behind the `2 ^ 31 - 1`-th byte, and behind
the length that is left of the line's. -/
theorem mkStringSplitLine_words (line : Bytes) (t : SpacedWords) :
    ((∃ fuel, mkStringSplitLine fuel line = some ((lineWords line).map wordNode)) ↔ WordsFit line) ∧
      ((∃ fuel, mkStringSplitLine fuel t.text = some (t.words.map wordNode)) ↔ WordsFit t.text) := by
  refine ⟨mkStringSplitLine_iff line, ?_⟩
  rw [← t.lineWords_text]
  exact mkStringSplitLine_iff t.text

/-- A line whose length is lost in an `unsigned int` has no words. -/
theorem mkStringSplitLine_lost {line : Bytes} (hlost : toUInt (strlen line) = 0) : mkStringSplitLine 1 line = some [] := by
  rw [mkStringSplitLine, hlost, splitLineLoop]
  exact if_neg (Nat.lt_irrefl 0)

/-- One word of four gigabytes. -/
theorem mkStringSplitLine_four_gigabytes :
    mkStringSplitLine 1 (List.replicate (2 ^ 32) 0x61) = some [] ∧
      lineWords (List.replicate (2 ^ 32) 0x61) = [List.replicate (2 ^ 32) 0x61] ∧
      ¬ ∃ fuel, mkStringSplitLine fuel (List.replicate (2 ^ 32) 0x61) =
        some ((lineWords (List.replicate (2 ^ 32) 0x61)).map wordNode) := by
  have hletters : ∀ c ∈ List.replicate (2 ^ 32) (0x61 : UInt8), c = 0x61 := fun c => List.eq_of_mem_replicate
  have hlength : (List.replicate (2 ^ 32) (0x61 : UInt8)).length = 2 ^ 32 := List.length_replicate
  generalize List.replicate (2 ^ 32) (0x61 : UInt8) = line at hletters hlength ⊢
  have hnot : ∀ c, c ≠ 0x61 → c ∉ line := fun c hc hmem => hc (hletters c hmem)
  have hcstr : cstr line = line := cstr_eq_self (hnot 0 (by decide))
  have hne : line ≠ [] := List.length_pos_iff.mp (by omega)
  have hlost : toUInt (strlen line) = 0 := by
    rw [strlen, hcstr, hlength]
    rfl
  refine ⟨mkStringSplitLine_lost hlost, ?_, fun h => ?_⟩
  · rw [lineWords, hcstr, words_of_notMem hne (hnot 0x20 (by decide))]
  · have hfit := (mkStringSplitLine_iff line).mp h
    obtain ⟨c, rest, rfl⟩ := List.exists_cons_of_ne_nil hne
    have hread : readable (c :: rest) = 0 := by
      rw [readable, hlost]
      rfl
    have hblank := hfit c (by rw [hread, hcstr]; exact List.mem_cons_self)
    rw [hletters c List.mem_cons_self] at hblank
    exact absurd hblank (by decide)

/-! ## the other modules -/

theorem config_eq (line : Bytes) : Config.mkStringSplitLine line = lineWords line := Config.mkStringSplitLine_eq line

/-- **The words that the host files and the rules of the CGI plugin are read as** are the ones
in memory, for a line that fits. -/
theorem mkStringSplitLine_eq_words {line : Bytes} (hfit : WordsFit line) :
    ∃ fuel, mkStringSplitLine fuel line = some ((Config.mkStringSplitLine line).map wordNode) := by
  obtain ⟨fuel, h⟩ := (mkStringSplitLine_iff line).mpr hfit
  exact ⟨fuel, by rw [h, config_eq]⟩

end Monkey.SplitLine
