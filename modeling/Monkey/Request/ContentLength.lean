import Monkey.Request.Table
import Monkey.Request.Upload
import Monkey.Lib.Extent

/-!
# Monkey.Request.ContentLength

`mk_method_validate_content_length` looks for the name in the rows of a table it builds for
as many bytes as its caller says, and without such a row in all that has been received, where
the name can stand in the middle of a line or in the data (`lengthPlace`).  In the second
case the number is copied first, with the distance of the line end from the start of the
buffer as its length.
-/

namespace Monkey

/-! ## header lines -/

/-- A header line of a block, at the given position. -/
def LineAt (head : Bytes) (q : Nat) (line : Bytes) : Prop :=
  ∃ before after, head = before ++ (mkCrlf ++ (line ++ (mkCrlf ++ after))) ∧ q = before.length + 2

/-- A header line of a block that starts with the name. -/
def NameAt (head : Bytes) (q : Nat) : Prop :=
  ∃ before after, head = before ++ (mkCrlf ++ after) ∧ q = before.length + 2 ∧
    rhContentLength.map toupper <+: after.map toupper

/-! ## where the number is read -/

/-- Where the name is found: in a row of the table, or anywhere, with a line end some bytes
behind it. -/
inductive LengthPlace
  | row (q : Nat)
  | search (q c : Nat)
deriving DecidableEq, Repr

namespace LengthPlace

def pos : LengthPlace → Nat
  | row q => q
  | search q _ => q

/-- The text the number is read from, one byte behind the name. -/
def text (body : Bytes) : LengthPlace → Bytes
  | row q => body.drop (q + (rhContentLength.length + 1))
  | search q c => (body.drop (q + (rhContentLength.length + 1))).take (q + c)

/-- The copy ends in the buffer, its NUL included. -/
def CopyWithin (size : Nat) : LengthPlace → Prop
  | row _ => True
  | search q c => q + (rhContentLength.length + 1) + (q + c) ≤ size + 1

end LengthPlace

/-- The first of the rows with the name, else the first time the name stands in the string,
but not at its start. -/
def lengthPlace (body : Bytes) (bodyLen : Int) : Option LengthPlace :=
  match lookupRow (mkRequestHeaderTocParse body bodyLen) rhContentLength with
  | some row => some (.row (offsetIn body row.init))
  | none =>
      match strcasestr body rhContentLength with
      | none => none
      | some 0 => none
      | some (q + 1) => (strstr (body.drop (q + 1)) mkCrlf).map (.search (q + 1))

/-- What `mk_method_validate_content_length` touches: the table, the row found or the two
searches, and the number or the bytes copied. -/
def lengthTouches (body : Bytes) (bodyLen : Int) : List Touch :=
  let rows := mkRequestHeaderTocParse body bodyLen
  rowTouches bodyLen.toNat mkHeadersTocLen body 0 none ++ (lookupTouches body rhContentLength rows ++
    match (mkRequestHeaderGet rows rhContentLength).1.data with
    | some value => [.read (offsetIn body value + atoiReach value - 1)]
    | none =>
        searchTouches body body rhContentLength 0 ++
          match strcasestr body rhContentLength with
          | none => []
          | some 0 => []
          | some (q + 1) =>
              match strstr (body.drop (q + 1)) mkCrlf with
              | none => [.read (q + 1 + strlen (body.drop (q + 1)))]
              | some c => [.read (q + 1 + c + 1),
                  .read (q + 1 + (rhContentLength.length + 1) + (q + 1 + c) - 1)])

theorem mkRequestHeaderTocParse_isRow {body : Bytes} {bodyLen : Int} :
    ∀ row ∈ mkRequestHeaderTocParse body bodyLen, IsRow row :=
  fun _ hrow => (mkRequestHeaderTocLoop_isRow hrow).1

theorem isName_rhContentLength : IsName rhContentLength := by decide

/-- The rows of a table are ends of the buffer. -/
theorem mkRequestHeaderTocLoop_drop {len : Int} {n off base : Nat} {body : Bytes} {l : Option Nat}
    {row : HeaderTocRow} (hrow : row ∈ mkRequestHeaderTocLoop len n (body.drop base) off l) :
    row.init = body.drop (offsetIn body row.init) := by
  induction n generalizing base off l with
  | zero => exact absurd hrow List.not_mem_nil
  | succ n ih =>
      rw [mkRequestHeaderTocLoop] at hrow
      split at hrow
      · split at hrow
        · next k hk =>
            rcases List.mem_cons.mp hrow with rfl | hmem
            · have hle := strstr_end_le hk (by decide : mkCrlf ≠ [])
              have htwo : mkCrlf.length = 2 := rfl
              rw [List.length_drop] at hle
              rw [offsetIn_drop (by omega)]
            · rw [List.drop_drop] at hmem
              exact ih hmem
        · exact absurd hrow List.not_mem_nil
      · exact absurd hrow List.not_mem_nil

/-- A name is not a line end. -/
theorem strstr_name_pos {s : Bytes} {c : Nat} (hs : rhContentLength.map toupper <+: s.map toupper)
    (hc : strstr s mkCrlf = some c) : 0 < c := by
  rw [Nat.pos_iff_ne_zero]
  rintro rfl
  have hbyte := (crlf_bytes (isPrefix_drop_of_strstr hc)).1
  have hname := List.prefix_iff_getElem?.mp hs 0 (by decide)
  rw [List.getElem?_map, hbyte] at hname
  exact absurd hname (by decide)

theorem strcasestr_sound {s needle : Bytes} {q : Nat} (h : strcasestr s needle = some q) :
    needle.map toupper <+: (s.drop q).map toupper := by
  have hpre := findSub_sound h
  rw [← List.map_drop] at hpre
  exact hpre.trans (((List.takeWhile_prefix _).drop q).map toupper)

/-- **What is returned**: the number at the place, or `-1`. -/
theorem mkMethodValidateContentLength_eq (body : Bytes) (bodyLen : Int) :
    mkMethodValidateContentLength body bodyLen =
      (lengthPlace body bodyLen).elim (-1) fun place => strtol (place.text body) := by
  rw [mkMethodValidateContentLength, mkRequestHeaderGet_fst isName_rhContentLength
    mkRequestHeaderTocParse_isRow, lengthPlace]
  cases hrow : lookupRow (mkRequestHeaderTocParse body bodyLen) rhContentLength with
  | some row =>
      have hinit : row.init = body.drop (offsetIn body row.init) :=
        @mkRequestHeaderTocLoop_drop bodyLen mkHeadersTocLen 0 0 body none row (List.mem_of_find?_eq_some hrow)
      have hvalue : row.init.drop (rhContentLength.length + 1) =
          body.drop (offsetIn body row.init + (rhContentLength.length + 1)) :=
        (congrArg (List.drop _) hinit).trans List.drop_drop
      simp only [Option.elim_some, LengthPlace.text, hvalue]
  | none =>
      simp only [Option.elim_none]
      cases hname : strcasestr body rhContentLength with
      | none => rw [mkStringSearchI, hname]; rfl
      | some q =>
          cases q with
          | zero => rw [mkStringSearchI, hname]; rfl
          | succ q =>
              have hposition : mkStringSearchI body rhContentLength = ((q + 1 : Nat) : Int) := by
                rw [mkStringSearchI, hname]
                rfl
              rw [hposition, if_neg (by omega), Int.toNat_natCast, mkStringSearch]
              cases hend : strstr (body.drop (q + 1)) mkCrlf with
              | none =>
                  simp only [hend]
                  rfl
              | some c =>
                  have hpos := strstr_name_pos (strcasestr_sound hname) hend
                  have hcount : position (some c) = (c : Int) := rfl
                  rw [hcount, if_neg (by omega), mkStringCopySubstr, if_neg (by omega)]
                  simp only [hend, Option.map_some, Option.elim_some, Option.getD_some, LengthPlace.text,
                    Int.toNat_zero, List.drop_zero, sub_zero, ← Nat.cast_add, Int.toNat_natCast]
                  rw [Nat.add_assoc (q + 1)]

/-! ## what is read -/

section inside

variable {body : Bytes}

/-- The rows of a table are read inside the buffer, for whatever length. -/
theorem rowTouches_within {len n off : Nat} {l : Option Nat} (hoff : off ≤ body.length) :
    TouchesInside body.length body.length (rowTouches len n (body.drop off) off l) := by
  induction n generalizing off l with
  | zero => exact touchesInside_nil
  | succ n ih =>
      rw [rowTouches]
      split
      · cases hk : strstr (body.drop off) mkCrlf with
        | none =>
            have hlen := strlen_le_length (body.drop off)
            rw [List.length_drop] at hlen
            exact touchesInside_cons.mpr ⟨show off + strlen _ ≤ _ by omega, touchesInside_nil⟩
        | some k =>
            have hle := strstr_end_le hk (by decide : mkCrlf ≠ [])
            have htwo : mkCrlf.length = 2 := rfl
            rw [List.length_drop] at hle
            simp only [touchesInside_cons, Touch.Inside, List.drop_drop]
            rw [show off + (k + 2) = off + k + 2 by omega]
            exact ⟨by omega, by omega, by omega, ih (by omega)⟩
      · exact touchesInside_nil

/-- So are the comparisons with a name. -/
theorem lookupTouches_within {key : Bytes} (hkey : IsName key) {rows : List HeaderTocRow}
    (hrows : ∀ row ∈ rows, IsRow row ∧ row.init = body.drop (offsetIn body row.init)) :
    TouchesInside body.length body.length (lookupTouches body key rows) := by
  induction rows with
  | nil => exact touchesInside_nil
  | cons row rows ih =>
      obtain ⟨hrow, hrest⟩ := List.forall_mem_cons.mp hrows
      rw [lookupTouches]
      split
      · exact ih hrest
      · have hle := hrow.1.length_le
        have hinit := congrArg List.length hrow.2
        rw [List.length_drop] at hinit
        have hcr := (crlf_bytes (isPrefix_drop_of_strstr hrow.1)).1
        have hreads := @strncmpReads_le_of_getElem? toupper _ _ key.length _ _ hcr hkey.2
        refine touchesInside_cons.mpr ⟨show offsetIn body row.init + _ - 1 ≤ _ by omega, ?_⟩
        split
        · next hmatch =>
            have hname := hkey.length_le hcr hmatch
            exact touchesInside_cons.mpr ⟨show offsetIn body row.init + _ ≤ _ by omega, touchesInside_nil⟩
        · exact ih hrest

/-- And a search of the whole string. -/
theorem searchTouches_within {search : Bytes} (hne : search ≠ []) :
    TouchesInside body.length body.length (searchTouches body body search 0) := by
  have hzero : offsetIn body body = 0 := Nat.sub_self _
  have hpos := List.length_pos_iff.mpr hne
  rw [searchTouches, if_pos le_rfl, hzero]
  cases hname : strcasestr body search with
  | none =>
      have hlen := strlen_le_length body
      exact touchesInside_cons.mpr ⟨show 0 + strlen body ≤ _ by omega, touchesInside_nil⟩
  | some k =>
      have hle := (strcasestr_sound hname).length_le
      rw [List.length_map, List.length_map, List.length_drop] at hle
      exact touchesInside_cons.mpr ⟨show 0 + k + search.length - 1 ≤ _ by omega,
        touchesInside_cons.mpr ⟨show 0 + k < _ by omega, touchesInside_nil⟩⟩

end inside

/-- **What is read**: everything is read inside the buffer, but for a copy that is too long. -/
theorem lengthTouches_inside_iff (body : Bytes) (bodyLen : Int) :
    TouchesInside body.length body.length (lengthTouches body bodyLen) ↔
      ∀ place ∈ lengthPlace body bodyLen, place.CopyWithin body.length := by
  have hdrop : ∀ row ∈ mkRequestHeaderTocParse body bodyLen,
      row.init = body.drop (offsetIn body row.init) := fun row hrow =>
    @mkRequestHeaderTocLoop_drop bodyLen mkHeadersTocLen 0 0 body none row hrow
  have hrows := @rowTouches_within body bodyLen.toNat mkHeadersTocLen 0 none (Nat.zero_le _)
  have hlookup := @lookupTouches_within body _ isName_rhContentLength _
    fun row hrow => ⟨mkRequestHeaderTocParse_isRow row hrow, hdrop row hrow⟩
  rw [lengthTouches, touchesInside_append, touchesInside_append]
  refine (and_iff_right hrows).trans ((and_iff_right hlookup).trans ?_)
  rw [mkRequestHeaderGet_fst isName_rhContentLength mkRequestHeaderTocParse_isRow, lengthPlace]
  cases hrow : lookupRow (mkRequestHeaderTocParse body bodyLen) rhContentLength with
  | some row =>
      have hreach : atoiReach (row.init.drop (rhContentLength.length + 1)) ≤
          (row.init.drop (rhContentLength.length + 1)).length + 1 := by
        rw [atoiReach]
        omega
      have hshort : (row.init.drop (rhContentLength.length + 1)).length ≤ body.length := by
        rw [hdrop row (List.mem_of_find?_eq_some hrow), List.length_drop, List.length_drop]
        omega
      refine iff_of_true (touchesInside_cons.mpr ⟨?_, touchesInside_nil⟩) ?_
      · show offsetIn body (row.init.drop _) + atoiReach (row.init.drop _) - 1 ≤ body.length
        rw [offsetIn]
        omega
      · rintro place hplace
        obtain rfl := Option.some.inj hplace
        trivial
  | none =>
      simp only [Option.elim_none, touchesInside_append]
      refine (and_iff_right (searchTouches_within (by decide))).trans ?_
      have hnowhere : ∀ place ∈ (none : Option LengthPlace), place.CopyWithin body.length :=
        fun place hplace => absurd hplace (Option.not_mem_none _)
      cases hname : strcasestr body rhContentLength with
      | none => exact iff_of_true touchesInside_nil hnowhere
      | some q =>
          cases q with
          | zero => exact iff_of_true touchesInside_nil hnowhere
          | succ q =>
              have hpre := (strcasestr_sound hname).length_le
              have hsize : rhContentLength.length = 15 := rfl
              rw [List.length_map, List.length_map, List.length_drop] at hpre
              simp only
              cases hend : strstr (body.drop (q + 1)) mkCrlf with
              | none =>
                  have hlen := strlen_le_length (body.drop (q + 1))
                  rw [List.length_drop] at hlen
                  have hread : q + 1 + strlen (body.drop (q + 1)) ≤ body.length := by omega
                  exact iff_of_true (touchesInside_cons.mpr ⟨hread, touchesInside_nil⟩) hnowhere
              | some c =>
                  have hcrlf := strstr_end_le hend (by decide : mkCrlf ≠ [])
                  have htwo : mkCrlf.length = 2 := rfl
                  rw [List.length_drop] at hcrlf
                  simp only [touchesInside_cons, Touch.Inside, Option.map_some, Option.mem_def,
                    Option.some.injEq, forall_eq', LengthPlace.CopyWithin]
                  refine (and_iff_right (by omega)).trans ((and_iff_left touchesInside_nil).trans ?_)
                  omega

/-! ## the number of a line -/

/-- The bytes from a line on. -/
theorem LineAt.drop_eq {head line : Bytes} {q : Nat} (h : LineAt head q line) (tail : Bytes) :
    ∃ after, (head ++ tail).drop q = line ++ (mkCrlf ++ after) ∧ 2 ≤ q := by
  obtain ⟨before, after, rfl, rfl⟩ := h
  refine ⟨after ++ tail, ?_, by omega⟩
  have htwo : mkCrlf.length = 2 := rfl
  rw [← List.append_assoc before, List.append_assoc (before ++ mkCrlf), List.drop_left' (by simp [htwo])]
  simp

/-- The line end behind a place that has been searched. -/
theorem strstr_of_search {body : Bytes} {bodyLen : Int} {q c : Nat}
    (h : lengthPlace body bodyLen = some (.search q c)) : strstr (body.drop q) mkCrlf = some c := by
  rw [lengthPlace] at h
  split at h
  · exact absurd (Option.some.inj h) (by simp)
  · split at h
    · contradiction
    · contradiction
    · obtain ⟨c', hend, hplace⟩ := Option.map_eq_some_iff.mp h
      obtain ⟨rfl, rfl⟩ := LengthPlace.search.inj hplace
      exact hend

/-- The number of a line is read where the line is the place. -/
theorem strtol_place {head tail : Bytes} {bodyLen : Int} {n q : Nat} {l : LengthLine n}
    (hline : LineAt head q l.text) {place : LengthPlace}
    (hplace : lengthPlace (head ++ tail) bodyLen = some place) (hpos : place.pos = q)
    (hblank : l.blanks ≠ []) (hn : n < 2 ^ 63) : strtol (place.text (head ++ tail)) = n := by
  obtain ⟨after, hdrop, htwo⟩ := hline.drop_eq tail
  have hnumber : (head ++ tail).drop (q + (rhContentLength.length + 1)) =
      l.blanks.tail ++ (l.number ++ (l.trail ++ (mkCrlf ++ after))) := by
    rw [← List.drop_drop, hdrop, l.drop_name hblank]
  cases place with
  | row q' =>
      obtain rfl : q' = q := hpos
      rw [LengthPlace.text, hnumber]
      have hhead := l.head?_trail after (l.trail ++ (mkCrlf ++ after)).length
      rw [List.take_length] at hhead
      exact l.strtol_eq hn hhead
  | search q' c =>
      obtain rfl : q' = q := hpos
      -- the line end lies behind the line, so the copy holds the number
      have hcr := (crlf_bytes (isPrefix_drop_of_strstr (strstr_of_search hplace))).1
      rw [hdrop] at hcr
      have hend : l.text.length ≤ c := by
        by_contra hlt
        rw [List.getElem?_append_left (not_le.mp hlt)] at hcr
        exact l.notMem_text (by decide) (by decide) (by decide) (List.mem_of_getElem? hcr)
      have htail : l.blanks.tail.length + l.number.length ≤ q' + c := by
        simp only [LengthLine.text, List.length_append] at hend
        rw [List.length_tail]
        omega
      obtain ⟨k, hk⟩ := Nat.exists_eq_add_of_le htail
      rw [LengthPlace.text, hnumber, hk, Nat.add_assoc, List.take_length_add_append,
        List.take_length_add_append]
      exact l.strtol_eq hn (l.head?_trail after k)

/-! ## the returned length -/

/-- The value of a header line with the name is returned, or `-1` if no line has it, and nothing
is read outside the buffer. -/
structure LengthRead (head tail : Bytes) (bodyLen : Int) : Prop where
  value : ∀ (n q : Nat) (l : LengthLine n), LineAt head q l.text →
    mkMethodValidateContentLength (head ++ tail) bodyLen = n
  missing : (∀ q, ¬ NameAt head q) → mkMethodValidateContentLength (head ++ tail) bodyLen = -1
  inside : TouchesInside (head ++ tail).length (head ++ tail).length (lengthTouches (head ++ tail) bodyLen)

/-- The place is the line, with a blank behind the name. -/
def OwnPlace (body : Bytes) (bodyLen : Int) {n : Nat} (q : Nat) (l : LengthLine n) : Prop :=
  (∃ place, lengthPlace body bodyLen = some place ∧ place.pos = q) ∧ l.blanks ≠ [] ∧ n < 2 ^ 63

/-- The bytes one behind the name at the place spell a number. -/
def PlaceSpells (body : Bytes) (bodyLen : Int) (n : Int) : Prop :=
  ∃ place, lengthPlace body bodyLen = some place ∧ SpellsInt (place.text body) n

/-- The conditions on the place. -/
structure LengthClear (head tail : Bytes) (bodyLen : Int) : Prop where
  own : ∀ (n q : Nat) (l : LengthLine n), LineAt head q l.text →
    OwnPlace (head ++ tail) bodyLen q l ∨ PlaceSpells (head ++ tail) bodyLen n
  missing : (∀ q, ¬ NameAt head q) →
    lengthPlace (head ++ tail) bodyLen = none ∨ PlaceSpells (head ++ tail) bodyLen (-1)
  copy : ∀ place, lengthPlace (head ++ tail) bodyLen = some place →
    place.CopyWithin (head ++ tail).length

/-- **Content length**: the value of the header line is returned, or `-1`, and the buffer is
not left, exactly when the name is found where the line is, or else where the bytes happen
to spell the same number. -/
theorem content_length_iff (head tail : Bytes) (bodyLen : Int) :
    LengthRead head tail bodyLen ↔ LengthClear head tail bodyLen := by
  have hvalue := mkMethodValidateContentLength_eq (head ++ tail) bodyLen
  have hreads : ∀ n : Int, mkMethodValidateContentLength (head ++ tail) bodyLen = n ↔
      (lengthPlace (head ++ tail) bodyLen = none ∧ n = -1) ∨ PlaceSpells (head ++ tail) bodyLen n := by
    intro n
    rw [hvalue, PlaceSpells]
    cases lengthPlace (head ++ tail) bodyLen with
    | none => simp [eq_comm]
    | some place => simp [strtol_eq_iff]
  constructor
  · intro h
    refine ⟨fun n q l hline => ?_, fun hnone => ?_, (lengthTouches_inside_iff _ _).mp h.inside⟩
    · rcases (hreads n).mp (h.value n q l hline) with ⟨-, hneg⟩ | hsame
      · omega
      · exact .inr hsame
    · exact ((hreads (-1)).mp (h.missing hnone)).imp_left And.left
  · intro h
    refine ⟨fun n q l hline => ?_, fun hnone => ?_, (lengthTouches_inside_iff _ _).mpr h.copy⟩
    · rcases h.own n q l hline with ⟨⟨place, hplace, hpos⟩, hblank, hn⟩ | hsame
      · have hvalue := strtol_place hline hplace hpos hblank hn
        exact (hreads n).mpr (.inr ⟨place, hplace, strtol_eq_iff.mp hvalue⟩)
      · exact (hreads n).mpr (.inr hsame)
    · exact (hreads (-1)).mpr ((h.missing hnone).imp_left fun hplace => ⟨hplace, rfl⟩)

/-- A `Content-Length` of 5 behind another header that ends with the name. -/
def twoLengths : Bytes :=
  ascii "POST / HTTP/1.1\r\nX-Content-Length: 7\r\nContent-Length: 5\r\n\r\n".toList

def lengthFive : LengthLine 5 where
  name := ascii "Content-Length:".toList
  blanks := [0x20]
  number := [0x35]
  trail := []
  isName := rfl
  isBlank := by decide +kernel
  isNumber := by decide +kernel
  ne_nil := by decide
  value := rfl

/-- Before the data has arrived 7 is returned. -/
theorem not_content_length_read : ¬ LengthRead twoLengths [] 0 := by
  intro h
  have hline : LineAt twoLengths 38 lengthFive.text :=
    ⟨ascii "POST / HTTP/1.1\r\nX-Content-Length: 7".toList, mkCrlf, by decide, by decide⟩
  exact absurd (h.value 5 38 lengthFive hline) (by decide +kernel)

end Monkey
