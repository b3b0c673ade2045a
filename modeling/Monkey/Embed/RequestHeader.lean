import Monkey.Lib.Tokens
import Monkey.Request.Table

/-!
# Monkey.Embed.RequestHeader

The fields of a request as a program that embeds the server reads them
(`mklib_get_request_header`): from the table of header rows, whichever of them the server has looked
up itself.
-/

namespace Monkey

/-- `mklib_get_request_header`: the value of the first row that holds the key, a colon and at least a
byte more; `none` is the null pointer. -/
def mklibGetRequestHeader (rows : List HeaderTocRow) (key : Bytes) : Option Bytes :=
  match rows with
  | [] => none
  | row :: rows =>
      if row.len = 0 then mklibGetRequestHeader rows key
      else if row.len < key.length + 2 ∨ strncasecmp key row.init key.length = false then
        mklibGetRequestHeader rows key
      else if row.init[key.length]? ≠ some 0x3a then mklibGetRequestHeader rows key
      else
        let valueLen := row.len - (key.length + 2)
        if valueLen = 0 then none else some ((row.init.drop (key.length + 2)).take valueLen)

/-! ## the fields of the lines -/

/-- The name of a line, and what is behind its first colon. -/
def lineField (line : Bytes) : Option (Bytes × Bytes) :=
  if 0x3a ∈ line then some (line.takeWhile (· ≠ 0x3a), (line.dropWhile (· ≠ 0x3a)).drop 1) else none

/-- What is behind the colon in each of the lines of a name. -/
def textsBehind (key : Bytes) (lines : List Bytes) : List Bytes :=
  ((lines.filterMap lineField).filter fun f => f.1.map toupper == key.map toupper).map Prod.snd

/-- A value without the blanks in front; an empty one is none. -/
def valueBehind (text : Bytes) : Option Bytes :=
  let value := text.dropWhile (· = 0x20)
  if value = [] then none else some value

/-- The value of the first line of a name. -/
def lineValue (key : Bytes) (lines : List Bytes) : Option Bytes := (textsBehind key lines).head?.bind valueBehind

/-- A text without its first byte, whatever that is. -/
def skipOne (text : Bytes) : Option Bytes := if text.tail = [] then none else some text.tail

/-- The first line of a name has one blank behind its colon.  If it has nothing there, none of the
lines behind it is taken for it. -/
def OneBlank : List Bytes → Prop
  | [] => True
  | [] :: texts => (texts.find? (· ≠ [])).bind skipOne = none
  | (c :: value) :: _ => c = 0x20 ∧ value.head? ≠ some 0x20

instance (texts : List Bytes) : Decidable (OneBlank texts) :=
  match texts with
  | [] => .isTrue trivial
  | [] :: _ => inferInstanceAs (Decidable (_ = _))
  | (_ :: _) :: _ => inferInstanceAs (Decidable (_ ∧ _))

theorem lineField_append {name : Bytes} (hname : 0x3a ∉ name) (text : Bytes) :
    lineField (name ++ 0x3a :: text) = some (name, text) := by
  have hall : ∀ c ∈ name, decide (c ≠ 0x3a) = true := by
    intro c hc
    rw [decide_eq_true_eq]
    rintro rfl
    exact hname hc
  rw [lineField, if_pos (by simp), List.takeWhile_append_of_pos hall, List.dropWhile_append_of_pos hall,
    List.takeWhile_cons_of_neg (by simp), List.dropWhile_cons_of_neg (by simp), List.append_nil]
  rfl

theorem lineField_eq_some {line name text : Bytes} :
    lineField line = some (name, text) ↔ line = name ++ 0x3a :: text ∧ 0x3a ∉ name := by
  constructor
  · intro h
    by_cases hmem : 0x3a ∈ line
    · obtain ⟨before, behind, rfl, hbefore⟩ := List.eq_append_cons_of_mem hmem
      rw [lineField_append hbefore] at h
      obtain ⟨rfl, rfl⟩ := Prod.mk.inj (Option.some.inj h)
      exact ⟨rfl, hbefore⟩
    · rw [lineField, if_neg hmem] at h
      cases h
  · rintro ⟨rfl, hname⟩
    exact lineField_append hname text

theorem colon_notMem_of_map_toupper {name key : Bytes} (h : name.map toupper = key.map toupper) (hkey : 0x3a ∉ key) :
    0x3a ∉ name := by
  intro hmem
  have himage : toupper 0x3a ∈ key.map toupper := h ▸ List.mem_map_of_mem hmem
  obtain ⟨c, hc, heq⟩ := List.mem_map.mp himage
  have hcolon : c = 0x3a := eq_of_toupper_eq heq (by decide)
  exact hkey (hcolon ▸ hc)

/-! ## one row -/

/-- A row that the key is looked up in: its line is one of the name, with something behind the colon. -/
theorem row_matches_iff {line tail key : Bytes} (hkey : 0 ∉ key ∧ 0x3a ∉ key) :
    (key.length + 2 ≤ line.length ∧ strncasecmp key (line ++ tail) key.length = true ∧
        (line ++ tail)[key.length]? = some 0x3a) ↔
      ∃ name text, lineField line = some (name, text) ∧ name.map toupper = key.map toupper ∧ text ≠ [] := by
  have hcmp := strncasecmp_token hkey.1 [] (line ++ tail)
  rw [List.append_nil] at hcmp
  rw [hcmp, List.isPrefixOf_iff_prefix]
  constructor
  · rintro ⟨hlen, hpre, hcolon⟩
    have hlt : key.length < line.length := by omega
    have hname : (line.take key.length).map toupper = key.map toupper := by
      have htake := List.prefix_iff_eq_take.mp hpre
      rw [List.length_map, ← List.map_take, List.take_append_of_le_length (by omega)] at htake
      exact htake.symm
    rw [List.getElem?_append_left hlt] at hcolon
    have hsplit : line = line.take key.length ++ 0x3a :: line.drop (key.length + 1) := by
      conv_lhs => rw [← List.take_append_drop key.length line]
      rw [List.drop_eq_getElem_cons hlt]
      rw [List.getElem?_eq_getElem hlt, Option.some.injEq] at hcolon
      rw [hcolon]
    refine ⟨_, _, lineField_eq_some.mpr ⟨hsplit, colon_notMem_of_map_toupper hname hkey.2⟩, hname, ?_⟩
    rw [← List.length_pos_iff, List.length_drop]
    omega
  · rintro ⟨name, text, hfield, hname, htext⟩
    obtain ⟨rfl, -⟩ := lineField_eq_some.mp hfield
    have hlength : name.length = key.length := by simpa using congrArg List.length hname
    have hpos := List.length_pos_iff.mpr htext
    refine ⟨by simp; omega, ?_, ?_⟩
    · rw [List.append_assoc, List.map_append, hname]
      exact List.prefix_append _ _
    · rw [List.append_assoc, ← hlength, List.getElem?_append_right le_rfl, Nat.sub_self]
      rfl

/-- The value of such a row. -/
theorem row_value {line tail key name text : Bytes} (hfield : lineField line = some (name, text))
    (hlength : name.length = key.length) :
    (if line.length - (key.length + 2) = 0 then none
      else some (((line ++ tail).drop (key.length + 2)).take (line.length - (key.length + 2)))) = skipOne text := by
  obtain ⟨rfl, -⟩ := lineField_eq_some.mp hfield
  have hdrop : (name ++ 0x3a :: text ++ tail).drop (key.length + 2) = (text ++ tail).drop 1 := by
    rw [List.append_assoc, ← hlength, ← List.drop_drop, List.drop_left]
    rfl
  rw [hdrop, skipOne, List.length_append, List.length_cons, ← hlength]
  cases text with
  | nil => simp
  | cons c value =>
      have hcount : name.length + ((c :: value).length + 1) - (name.length + 2) = value.length := by
        simp only [List.length_cons]
        omega
      rw [hcount, List.cons_append, List.drop_succ_cons, List.drop_zero, List.take_left, List.tail_cons]
      cases value <;> rfl

/-! ## the table -/

/-- **What the table gives** for a key: the first of the texts behind it that is not empty, without its
first byte. -/
theorem mklibGetRequestHeader_eq {rows : List HeaderTocRow} {lines : List Bytes} {tail key : Bytes}
    (hrows : rows.map HeaderTocRow.span = lineSpans lines tail) (hkey : 0 ∉ key ∧ 0x3a ∉ key) :
    mklibGetRequestHeader rows key = ((textsBehind key lines).find? (· ≠ [])).bind skipOne := by
  induction lines generalizing rows with
  | nil =>
      obtain rfl : rows = [] := List.map_eq_nil_iff.mp hrows
      rfl
  | cons line lines ih =>
      obtain ⟨row, rows, rfl⟩ : ∃ row rows', rows = row :: rows' := by
        cases rows with
        | nil => cases hrows
        | cons row rows => exact ⟨row, rows, rfl⟩
      rw [List.map_cons, lineSpans, List.cons.injEq] at hrows
      obtain ⟨hrow, hrows⟩ := hrows
      obtain ⟨hinit, hlen⟩ := Prod.mk.inj hrow
      have ih := ih hrows
      by_cases hmatch : ∃ name text, lineField line = some (name, text) ∧ name.map toupper = key.map toupper ∧
          text ≠ []
      · obtain ⟨hlong, hcmp, hcolon⟩ := (row_matches_iff hkey).mpr hmatch
        obtain ⟨name, text, hfield, hname, htext⟩ := hmatch
        have hlength : name.length = key.length := by simpa using congrArg List.length hname
        rw [mklibGetRequestHeader, hinit, hlen, if_neg (by omega), if_neg (by rw [hcmp]; simp; omega),
          if_neg (by rw [hcolon]; simp)]
        simp only
        rw [row_value hfield hlength, textsBehind, List.filterMap_cons_some hfield,
          List.filter_cons_of_pos (by simpa using hname), List.map_cons, List.find?_cons_of_pos (by simpa using htext)]
        rfl
      · have hskip : mklibGetRequestHeader (row :: rows) key = mklibGetRequestHeader rows key := by
          rw [mklibGetRequestHeader, hinit, hlen]
          split
          · rfl
          split
          · rfl
          split
          · rfl
          · next hshort hcolon =>
              rw [not_or, not_lt, Bool.not_eq_false] at hshort
              exact absurd ((row_matches_iff hkey).mp ⟨hshort.1, hshort.2, not_not.mp hcolon⟩) hmatch
        rw [hskip, ih]
        cases hfield : lineField line with
        | none => rw [textsBehind, textsBehind, List.filterMap_cons_none hfield]
        | some f =>
            obtain ⟨name, text⟩ := f
            rw [textsBehind, textsBehind, List.filterMap_cons_some hfield]
            by_cases hname : name.map toupper = key.map toupper
            · obtain rfl : text = [] := by
                by_contra htext
                exact hmatch ⟨name, text, hfield, hname, htext⟩
              rw [List.filter_cons_of_pos (by simpa using hname), List.map_cons, List.find?_cons_of_neg (by simp)]
            · rw [List.filter_cons_of_neg (by simpa using hname)]

theorem skipOne_eq_valueBehind {c : UInt8} {value : Bytes} :
    skipOne (c :: value) = valueBehind (c :: value) ↔ c = 0x20 ∧ value.head? ≠ some 0x20 := by
  rw [skipOne, valueBehind, List.tail_cons]
  by_cases hc : c = 0x20
  · subst hc
    rw [List.dropWhile_cons_of_pos (by simp)]
    cases value with
    | nil => simp
    | cons d value =>
        by_cases hd : d = 0x20
        · subst hd
          have hlt : (value.dropWhile (· = 0x20)).length ≤ value.length := List.length_dropWhile_le _ _
          refine iff_of_false (fun h => ?_) (by simp)
          rw [if_neg (by simp), List.dropWhile_cons_of_pos (by simp)] at h
          split at h
          · cases h
          · rw [← Option.some.inj h, List.length_cons] at hlt
            omega
        · rw [List.dropWhile_cons_of_neg (by simpa using hd)]
          simp [hd]
  · rw [List.dropWhile_cons_of_neg (by simpa using hc)]
    refine iff_of_false (fun h => ?_) fun h => hc h.1
    simp only [List.cons_ne_nil, if_false] at h
    split at h
    · cases h
    · have hlen := congrArg List.length (Option.some.inj h)
      rw [List.length_cons] at hlen
      omega

/-- The table agrees with the lines exactly if the name has one blank. -/
theorem skipOne_iff (texts : List Bytes) :
    (texts.find? (· ≠ [])).bind skipOne = texts.head?.bind valueBehind ↔ OneBlank texts := by
  match texts with
  | [] => simp [OneBlank]
  | [] :: texts => simp [OneBlank, valueBehind]
  | (c :: value) :: texts =>
      rw [List.find?_cons_of_pos (by simp), List.head?_cons, Option.bind_some, Option.bind_some]
      exact skipOne_eq_valueBehind

/-- A request without header lines has no value in its table. -/
theorem mklibGetRequestHeader_no_lines {rows : List HeaderTocRow} {rest key : Bytes} {len : Int} (hlen : len < 0)
    (hrows : rows.map HeaderTocRow.span = (mkRequestHeaderTocParse (mkCrlf ++ rest) len).map HeaderTocRow.span) :
    mklibGetRequestHeader rows key = none := by
  have hsearch : strstr (mkCrlf ++ rest) mkCrlf = some 0 := by
    rw [strstr, cstr_append (by decide)]
    rfl
  rw [mkRequestHeaderTocParse, mkHeadersTocLen, mkRequestHeaderTocLoop] at hrows
  simp only [Option.elim_none, if_true, hsearch] at hrows
  rw [mkRequestHeaderTocLoop, if_neg (by simp; omega), List.map_cons, List.map_nil] at hrows
  obtain ⟨row, rfl⟩ : ∃ row, rows = [row] := List.length_eq_one_iff.mp (by simpa using congrArg List.length hrows)
  have hzero : row.len = 0 := (Prod.mk.inj (List.cons.inj hrows).1).2
  rw [mklibGetRequestHeader, if_pos hzero]
  rfl

/-- **Fields of a request**: whatever the server has looked up itself, the value that a program gets for a
key is that of the first header line of the name, exactly if that line has one blank behind its colon. -/
theorem mklibGetRequestHeader_iff {m u v rest : Bytes} {lines : List Bytes} (hfirst : IsFirstLine m u v)
    (hlines : ∀ line ∈ lines, IsLine line) (h0 : ∀ line ∈ lines, 0 ∉ line)
    (hcount : lines.length ≤ mkHeadersTocLen)
    (hlen : (requestLine m u v (headerLines lines (mkCrlf ++ rest))).length < 2 ^ 31) (cfg : Config) (sys : Sys)
    {sr : SessionRequest}
    (hbody : sr.body = ⟨some (requestLine m u v (headerLines lines (mkCrlf ++ rest))),
      m.length + u.length + v.length + 2 + (headerLines lines []).length⟩)
    {key : Bytes} (hkey : 0 ∉ key ∧ 0x3a ∉ key) :
    mklibGetRequestHeader (mkRequestHeaderProcess cfg sys sr).2.headersToc key = lineValue key lines ↔
      OneBlank (textsBehind key lines) := by
  have hsize : ((m.length + u.length + v.length + 2 + (headerLines lines []).length : Nat) : Int) -
      (m.length + u.length + v.length + 4 : Nat) = ((0 : Nat) : Int) + (headerLines lines []).length - 2 := by
    push_cast
    ring
  have hspans := mkRequestFieldsProcess_span cfg (headerLines lines (mkCrlf ++ rest))
    (((0 : Nat) : Int) + (headerLines lines []).length - 2)
  rw [hfirst.mkRequestHeaderProcess_eq hlen cfg sys (by rw [hbody]), hbody, hsize]
  by_cases hne : lines = []
  · subst hne
    rw [mklibGetRequestHeader_no_lines (by simp [headerLines]) (hspans _)]
    exact iff_of_true rfl trivial
  · have htable := @mkRequestHeaderTocLoop_lines lines (mkCrlf ++ rest) hlines h0 hne _ 0 hcount
      (((0 : Nat) : Int) + (headerLines lines []).length - 2) rfl none (by simp)
    rw [mklibGetRequestHeader_eq ((hspans _).trans htable) hkey]
    exact skipOne_iff _

/-- A field that the server does not look up itself, behind one that it does. -/
theorem mklibGetRequestHeader_two : mklibGetRequestHeader (mkRequestHeaderProcess sampleConfig sampleSys
    { body := ⟨some (ascii "GET / HTTP/1.1\r\nHost: a\r\nX-Key: b c\r\n\r\n".toList), 35⟩ }).2.headersToc
      (ascii "x-key".toList) = some (ascii "b c".toList) := by
  have h := (@mklibGetRequestHeader_iff (ascii "GET".toList) (ascii "/".toList) (ascii "HTTP/1.1".toList) []
    [ascii "Host: a".toList, ascii "X-Key: b c".toList] ⟨by decide, by decide, by decide, by decide, by decide⟩
    (by decide) (by decide) (by decide) (by decide) sampleConfig sampleSys
    { body := ⟨some (ascii "GET / HTTP/1.1\r\nHost: a\r\nX-Key: b c\r\n\r\n".toList), 35⟩ } rfl
    (ascii "x-key".toList) ⟨by decide, by decide⟩).mpr (by decide)
  exact h

end Monkey
