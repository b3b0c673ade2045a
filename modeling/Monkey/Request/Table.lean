import Monkey.Request.Line
import Monkey.Request.Touches

/-!
# Monkey.Request.Table

The table of header rows and the lookups in it.  `mk_request_header_toc_parse` finds one
row for each line of a header block, except that a block without lines gets an empty row
and a NUL ends the table.  `mk_request_header_get` finds the row it should, and skips one
byte behind the name, blank or not.
-/

namespace Monkey

/-! ## the rows of a header block -/

/-- Header lines, each with its line end, in front of `tail`. -/
def headerLines : List Bytes → Bytes → Bytes
  | [], tail => tail
  | line :: lines, tail => line ++ (mkCrlf ++ headerLines lines tail)

/-- Where the lines stand. -/
def lineSpans : List Bytes → Bytes → List (Bytes × Nat)
  | [], _ => []
  | line :: lines, tail =>
      (line ++ (mkCrlf ++ headerLines lines tail), line.length) :: lineSpans lines tail

/-- Where a row stands. -/
def HeaderTocRow.span (row : HeaderTocRow) : Bytes × Nat := (row.init, row.len)

theorem lineSpans_length (lines : List Bytes) (tail : Bytes) :
    (lineSpans lines tail).length = lines.length := by
  induction lines with
  | nil => rfl
  | cons line lines ih => simp only [lineSpans, List.length_cons, ih]

/-- The bytes there are the lines. -/
theorem lineSpans_text (lines : List Bytes) (tail : Bytes) :
    (lineSpans lines tail).map (fun span => span.1.take span.2) = lines := by
  induction lines with
  | nil => rfl
  | cons line lines ih => simp only [lineSpans, List.map_cons, List.take_left, ih]

/-- A header line: some bytes without a line end. -/
def IsLine (line : Bytes) : Prop := line ≠ [] ∧ ¬ mkCrlf <:+: line

instance (line : Bytes) : Decidable (IsLine line) := inferInstanceAs (Decidable (_ ∧ _))

section lines

variable {lines : List Bytes} {tail : Bytes}

theorem headerLines_length_pos (hlines : ∀ line ∈ lines, IsLine line) (hne : lines ≠ []) :
    2 < (headerLines lines []).length := by
  obtain ⟨line, lines, rfl⟩ := List.exists_cons_of_ne_nil hne
  have hpos := List.length_pos_iff.mpr (hlines line List.mem_cons_self).1
  simp only [headerLines, List.length_append, mkCrlf, List.length_cons, List.length_nil]
  omega

/-- A block of lines gives one row for each, up to the end of the last one. -/
theorem mkRequestHeaderTocLoop_lines (hlines : ∀ line ∈ lines, IsLine line)
    (h0 : ∀ line ∈ lines, 0 ∉ line) (hne : lines ≠ []) {n off : Nat} (hn : lines.length ≤ n)
    {len : Int} (hlen : len = off + (headerLines lines []).length - 2) {l : Option Nat}
    (hl : ∀ k ∈ l, (k : Int) < len) :
    (mkRequestHeaderTocLoop len n (headerLines lines tail) off l).map HeaderTocRow.span =
      lineSpans lines tail := by
  induction lines generalizing n off l with
  | nil => contradiction
  | cons line lines ih =>
      obtain ⟨n, rfl⟩ := Nat.exists_eq_add_of_le' hn
      have hline := hlines line List.mem_cons_self
      have htest : l.elim true (fun l => decide ((l : Int) < len)) = true := by
        cases l with
        | none => rfl
        | some k => exact decide_eq_true (hl k rfl)
      have hsearch := strstr_crlf_append hline.2 (h0 line List.mem_cons_self) (headerLines lines tail)
      have hrest : (headerLines (line :: lines) tail).drop (line.length + 2) = headerLines lines tail := by
        rw [headerLines, ← List.append_assoc]
        exact List.drop_left' (by simp [mkCrlf])
      have hlength : (headerLines (line :: lines) []).length =
          line.length + 2 + (headerLines lines []).length := by
        simp only [headerLines, List.length_append, mkCrlf, List.length_cons, List.length_nil]
        omega
      rw [List.length_cons, ← add_assoc, mkRequestHeaderTocLoop, if_pos htest]
      simp only [headerLines, hsearch, List.map_cons, lineSpans, List.cons.injEq]
      refine ⟨rfl, ?_⟩
      rw [← headerLines, hrest]
      by_cases hlast : lines = []
      · -- the last line ends where the block does
        subst hlast
        simp only [headerLines, List.length_nil, add_zero] at hlength hlen
        cases n with
        | zero => rfl
        | succ n =>
            rw [List.length_nil, add_zero, mkRequestHeaderTocLoop, if_neg]
            · rfl
            · rw [Option.elim_some, decide_eq_true_eq]
              omega
      · have hpos := headerLines_length_pos (fun line' h => hlines line' (List.mem_cons_of_mem line h)) hlast
        refine ih (fun line' h => hlines line' (List.mem_cons_of_mem line h))
          (fun line' h => h0 line' (List.mem_cons_of_mem line h)) hlast (by omega) ?_ ?_
        · push_cast
          omega
        · rintro k ⟨⟩
          push_cast
          omega

/-- A NUL in a line ends the table there. -/
theorem mkRequestHeaderTocLoop_nul (hlines : ∀ line ∈ lines, IsLine line) (h0 : ∃ line ∈ lines, 0 ∈ line)
    (n off : Nat) (len : Int) (l : Option Nat) :
    (mkRequestHeaderTocLoop len n (headerLines lines tail) off l).length < lines.length := by
  induction lines generalizing n off l with
  | nil => simp at h0
  | cons line lines ih =>
      have hpos : 0 < (line :: lines).length := Nat.succ_pos _
      cases n with
      | zero => exact hpos
      | succ n =>
          rw [mkRequestHeaderTocLoop]
          split
          · by_cases hmem : 0 ∈ line
            · have hnone : strstr (headerLines (line :: lines) tail) mkCrlf = none := by
                rw [headerLines, strstr_append_of_mem hmem]
                cases hstr : strstr line mkCrlf with
                | none => rfl
                | some k => exact absurd (isInfix_of_strstr hstr) (hlines line List.mem_cons_self).2
              rw [hnone]
              exact hpos
            · have hrest : (headerLines (line :: lines) tail).drop (line.length + 2) =
                  headerLines lines tail := by
                rw [headerLines, ← List.append_assoc]
                exact List.drop_left' (by simp [mkCrlf])
              rw [headerLines, strstr_crlf_append (hlines line List.mem_cons_self).2 hmem, ← headerLines]
              simp only [List.length_cons, hrest]
              refine Nat.succ_lt_succ (ih (fun line' h => hlines line' (List.mem_cons_of_mem line h)) ?_ _ _ _)
              obtain ⟨line', hline', hnul⟩ := h0
              rcases List.mem_cons.mp hline' with rfl | hin
              · exact absurd hnul hmem
              · exact ⟨line', hin, hnul⟩
          · exact hpos

/-- A block without lines gives an empty row. -/
theorem mkRequestHeaderTocParse_crlf (rest : Bytes) (len : Int) :
    mkRequestHeaderTocParse (mkCrlf ++ rest) len ≠ [] := by
  have hsearch : strstr (mkCrlf ++ rest) mkCrlf = some 0 := by
    rw [strstr, cstr_append (by decide)]
    rfl
  rw [mkRequestHeaderTocParse, mkHeadersTocLen, mkRequestHeaderTocLoop]
  simp only [Option.elim_none, if_true, hsearch]
  exact List.cons_ne_nil _ _

end lines

/-! ## the table of a request -/

/-- A lookup leaves the rows where they are. -/
theorem mkRequestHeaderGet_span (rows : List HeaderTocRow) (key : Bytes) :
    (mkRequestHeaderGet rows key).2.map HeaderTocRow.span = rows.map HeaderTocRow.span := by
  induction rows with
  | nil => rfl
  | cons row rows ih =>
      rw [mkRequestHeaderGet]
      split
      · rfl
      · simp only [List.map_cons, ih]

theorem mkRequestFieldsProcess_span (cfg : Config) (headers : Bytes) (headersLen : Int)
    (sr : SessionRequest) :
    (mkRequestFieldsProcess cfg headers headersLen sr).2.headersToc.map HeaderTocRow.span =
      (mkRequestHeaderTocParse headers headersLen).map HeaderTocRow.span := by
  unfold mkRequestFieldsProcess
  simp only
  obtain ⟨host, hostPort, port, hhost⟩ := mkRequestHostProcess_eq cfg
    (mkRequestHeaderGet (mkRequestHeaderTocParse headers headersLen) rhHost).1
    { sr with headersToc :=
        (mkRequestHeaderGet (mkRequestHeaderTocParse headers headersLen) rhHost).2 }
  split
  · next heq =>
      rw [heq] at hhost
      subst hhost
      exact mkRequestHeaderGet_span _ _
  · next heq =>
      rw [heq] at hhost
      subst hhost
      obtain ⟨keepAlive, closeNow, connection, hconn⟩ := mkRequestConnectionProcess_eq _
      rw [hconn]
      simp only [mkRequestHeaderGet_span]

/-- **Header table**: the rows of a request are its header lines exactly when it has some and
none of them holds a NUL. -/
theorem header_table_iff {m u v rest : Bytes} {lines : List Bytes} (hfirst : IsFirstLine m u v)
    (hlines : ∀ line ∈ lines, IsLine line) (hcount : lines.length ≤ mkHeadersTocLen)
    (hlen : (requestLine m u v (headerLines lines (mkCrlf ++ rest))).length < 2 ^ 31) (cfg : Config)
    (sys : Sys) {sr : SessionRequest}
    (hbody : sr.body = ⟨some (requestLine m u v (headerLines lines (mkCrlf ++ rest))),
      m.length + u.length + v.length + 2 + (headerLines lines []).length⟩) :
    (mkRequestHeaderProcess cfg sys sr).2.headersToc.map HeaderTocRow.span =
        lineSpans lines (mkCrlf ++ rest) ↔
      lines ≠ [] ∧ ∀ line ∈ lines, 0 ∉ line := by
  have hsize : ((m.length + u.length + v.length + 2 + (headerLines lines []).length : Nat) : Int) -
      (m.length + u.length + v.length + 4 : Nat) = ((0 : Nat) : Int) + (headerLines lines []).length - 2 := by
    push_cast
    ring
  rw [hfirst.mkRequestHeaderProcess_eq hlen cfg sys (by rw [hbody]), mkRequestFieldsProcess_span, hbody, hsize]
  constructor
  · intro hspans
    have hlength := congrArg List.length hspans
    rw [List.length_map] at hlength
    constructor
    · rintro rfl
      have hnone : mkRequestHeaderTocParse (mkCrlf ++ rest) _ = [] :=
        List.length_eq_zero_iff.mp hlength
      exact mkRequestHeaderTocParse_crlf rest _ hnone
    · by_contra hnul
      have hfew := @mkRequestHeaderTocLoop_nul lines (mkCrlf ++ rest) hlines (by simpa using hnul)
        mkHeadersTocLen 0 (((0 : Nat) : Int) + (headerLines lines []).length - 2) none
      rw [lineSpans_length] at hlength
      exact absurd hlength (Nat.ne_of_lt hfew)
  · rintro ⟨hne, h0⟩
    exact mkRequestHeaderTocLoop_lines hlines h0 hne hcount rfl (by simp)

/-- A request with two header lines. -/
theorem header_table_two : (mkRequestHeaderProcess sampleConfig sampleSys
    { body := ⟨some (ascii "GET / HTTP/1.1\r\nHost: a\r\nA: b\r\n\r\n".toList), 29⟩ }).2.headersToc.map
      HeaderTocRow.span = lineSpans [ascii "Host: a".toList, ascii "A: b".toList] mkCrlf := by
  have h := (@header_table_iff (ascii "GET".toList) (ascii "/".toList) (ascii "HTTP/1.1".toList) []
    [ascii "Host: a".toList, ascii "A: b".toList] ⟨by decide, by decide, by decide, by decide, by decide⟩
    (by decide) (by decide) (by decide) sampleConfig sampleSys
    { body := ⟨some (ascii "GET / HTTP/1.1\r\nHost: a\r\nA: b\r\n\r\n".toList), 29⟩ } rfl).mpr
    ⟨by decide, by decide⟩
  exact h

/-- A request without header lines has an empty row. -/
theorem not_header_table : ¬ ∀ (m u v rest : Bytes) (lines : List Bytes) (cfg : Config) (sys : Sys)
    (sr : SessionRequest), IsFirstLine m u v → (∀ line ∈ lines, IsLine line) →
    lines.length ≤ mkHeadersTocLen →
    (requestLine m u v (headerLines lines (mkCrlf ++ rest))).length < 2 ^ 31 →
    sr.body = ⟨some (requestLine m u v (headerLines lines (mkCrlf ++ rest))),
      m.length + u.length + v.length + 2 + (headerLines lines []).length⟩ →
    (mkRequestHeaderProcess cfg sys sr).2.headersToc.map HeaderTocRow.span =
      lineSpans lines (mkCrlf ++ rest) := by
  intro h
  have hrows := h (ascii "GET".toList) (ascii "/".toList) (ascii "HTTP/1.0".toList) [] [] sampleConfig
    sampleSys { body := ⟨some (ascii "GET / HTTP/1.0\r\n\r\n".toList), 14⟩ }
    ⟨by decide, by decide, by decide, by decide, by decide⟩ (by simp) (by decide) (by decide) rfl
  exact absurd hrows (by decide)

/-! ## lookups -/

/-- The bytes of a row. -/
def HeaderTocRow.text (row : HeaderTocRow) : Bytes := row.init.take row.len

/-- The row starts with the key, in whatever case. -/
def HeaderTocRow.hasKey (row : HeaderTocRow) (key : Bytes) : Bool :=
  (key.map toupper).isPrefixOf (row.text.map toupper)

/-- A text without a blank in front. -/
def dropBlank : Bytes → Bytes
  | 0x20 :: s => s
  | s => s

/-- The value of a row: what follows the key, and a blank behind it, up to its end. -/
def HeaderTocRow.value (row : HeaderTocRow) (key : Bytes) : MkPointer :=
  let start := if row.text[key.length]? = some 0x20 then key.length + 1 else key.length
  ⟨some (row.init.drop start), row.len - start⟩

/-- The first row with the key that no lookup has consumed. -/
def lookupRow (rows : List HeaderTocRow) (key : Bytes) : Option HeaderTocRow :=
  rows.find? fun row => !row.found && row.hasKey key

/-- A lookup finds the value of that row, and nothing if there is none. -/
structure LookupExact (rows : List HeaderTocRow) (key : Bytes) (value : MkPointer) : Prop where
  missing : value.data = none ↔ ∀ row ∈ rows, row.found = false → row.hasKey key = false
  found : ∀ row, lookupRow rows key = some row → value = row.value key

/-- A row ends at the first line end behind its start. -/
def IsRow (row : HeaderTocRow) : Prop := strstr row.init mkCrlf = some row.len

theorem mkRequestHeaderTocLoop_isRow {len : Int} {n off : Nat} {p : Bytes} {l : Option Nat}
    {row : HeaderTocRow} (hrow : row ∈ mkRequestHeaderTocLoop len n p off l) :
    IsRow row ∧ row.init.length ≤ p.length := by
  induction n generalizing p off l with
  | zero => exact absurd hrow List.not_mem_nil
  | succ n ih =>
      rw [mkRequestHeaderTocLoop] at hrow
      split at hrow
      · split at hrow
        · next k hk =>
            rcases List.mem_cons.mp hrow with rfl | hmem
            · exact ⟨hk, le_rfl⟩
            · obtain ⟨his, hle⟩ := ih hmem
              rw [List.length_drop] at hle
              exact ⟨his, by omega⟩
        · exact absurd hrow List.not_mem_nil
      · exact absurd hrow List.not_mem_nil

/-- The rows of a table, whatever lookups have been made in it. -/
theorem isRow_of_span {rows : List HeaderTocRow} {data : Bytes} {len : Int}
    (hrows : rows.map HeaderTocRow.span = (mkRequestHeaderTocParse data len).map HeaderTocRow.span)
    {row : HeaderTocRow} (hrow : row ∈ rows) : IsRow row ∧ row.init.length ≤ data.length := by
  have hmem : row.span ∈ (mkRequestHeaderTocParse data len).map HeaderTocRow.span :=
    hrows ▸ List.mem_map_of_mem hrow
  obtain ⟨row', hrow', hspan⟩ := List.mem_map.mp hmem
  obtain ⟨hinit, hlen⟩ := Prod.mk.inj hspan
  have hspec := mkRequestHeaderTocLoop_isRow hrow'
  unfold IsRow at hspec ⊢
  rwa [← hinit, ← hlen]

section row

variable {row : HeaderTocRow} {key : Bytes}

theorem IsRow.length_le (h : IsRow row) : row.len + 2 ≤ row.init.length :=
  strstr_end_le h (by decide : mkCrlf ≠ [])

theorem IsRow.text_length (h : IsRow row) : row.text.length = row.len := by
  have := h.length_le
  rw [HeaderTocRow.text, List.length_take]
  omega

/-- The comparison of a lookup stays in the row. -/
theorem IsRow.strncasecmp_eq (h : IsRow row) (hkey : IsName key) :
    strncasecmp row.init key key.length = row.hasKey key := by
  rw [Bool.eq_iff_iff, HeaderTocRow.hasKey, List.isPrefixOf_iff_prefix]
  constructor
  · intro hmatch
    have hle := hkey.length_le (crlf_bytes (isPrefix_drop_of_strstr h)).1 hmatch
    refine List.prefix_of_prefix_length_le ((strncasecmp_iff_isPrefix hkey.1).mp hmatch)
      ((List.take_prefix _ _).map toupper) ?_
    rw [List.length_map, List.length_map, h.text_length]
    exact hle
  · intro hpre
    exact (strncasecmp_iff_isPrefix hkey.1).mpr (hpre.trans ((List.take_prefix _ _).map toupper))

theorem IsRow.key_length_le (h : IsRow row) (hkey : row.hasKey key = true) : key.length ≤ row.len := by
  have hle := (List.isPrefixOf_iff_prefix.mp hkey).length_le
  rwa [List.length_map, List.length_map, h.text_length] at hle

theorem HeaderTocRow.value_text (row : HeaderTocRow) (key : Bytes) :
    (row.value key).text = dropBlank (row.text.drop key.length) := by
  have htext : ∀ start, (⟨some (row.init.drop start), row.len - start⟩ : MkPointer).text =
      row.text.drop start := by
    intro start
    rw [MkPointer.text, Option.getD_some, HeaderTocRow.text, List.drop_take]
  rw [HeaderTocRow.value, htext]
  split
  · next hblank =>
      obtain ⟨hlt, hbyte⟩ := List.getElem?_eq_some_iff.mp hblank
      rw [List.drop_eq_getElem_cons hlt, hbyte, dropBlank]
  · next hblank =>
      unfold dropBlank
      split
      · next t hcons =>
          have hbyte : row.text[key.length]? = (row.text.drop key.length)[0]? := by
            rw [List.getElem?_drop, add_zero]
          rw [hcons] at hbyte
          exact absurd hbyte hblank
      · rfl

/-- The byte a lookup skips is a blank, or the value is another one. -/
theorem IsRow.value_eq_iff (h : IsRow row) (hkey : row.hasKey key = true)
    (hlen : row.init.length < 2 ^ 64) :
    (⟨some (row.init.drop (key.length + 1)), toULong ((row.len : Int) - (key.length + 1))⟩ : MkPointer) =
      row.value key ↔ row.text[key.length]? = some 0x20 := by
  have hle := h.key_length_le hkey
  have hin := h.length_le
  constructor
  · intro heq
    by_contra hblank
    rw [HeaderTocRow.value, if_neg hblank] at heq
    have hdrop := congrArg List.length (Option.some.inj (MkPointer.mk.inj heq).1)
    rw [List.length_drop, List.length_drop] at hdrop
    omega
  · intro hblank
    have hlt : key.length < row.len := by
      rw [← h.text_length]
      exact (List.getElem?_eq_some_iff.mp hblank).1
    have hcount : toULong ((row.len : Int) - (key.length + 1)) = row.len - (key.length + 1) := by
      unfold toULong
      omega
    rw [HeaderTocRow.value, if_pos hblank, hcount]

end row

/-- What a lookup returns. -/
theorem mkRequestHeaderGet_fst {rows : List HeaderTocRow} {key : Bytes} (hkey : IsName key)
    (hrows : ∀ row ∈ rows, IsRow row) :
    (mkRequestHeaderGet rows key).1 = (lookupRow rows key).elim {} fun row =>
      ⟨some (row.init.drop (key.length + 1)), toULong ((row.len : Int) - (key.length + 1))⟩ := by
  unfold lookupRow
  induction rows with
  | nil => rfl
  | cons row rows ih =>
      obtain ⟨hrow, hrest⟩ := List.forall_mem_cons.mp hrows
      rw [mkRequestHeaderGet, List.find?_cons, hrow.strncasecmp_eq hkey]
      cases hfound : row.found <;> cases hhas : row.hasKey key
      · simpa using ih hrest
      · simp
      · simpa using ih hrest
      · simpa using ih hrest

/-- A value that lies in the block holds no NUL. -/
theorem mkRequestHeaderGet_nul {headers data : Bytes} {len : Int} {key : Bytes} {n : Nat}
    (hkey : IsName key) (hlen : headers.length < 2 ^ 63) (hn : n ≤ data.length)
    (h : (mkRequestHeaderGet (mkRequestHeaderTocParse headers len) key).1 = ⟨some data, n⟩) :
    0 ∉ data.take n ∧ data.length ≤ headers.length := by
  have hrows : ∀ row ∈ mkRequestHeaderTocParse headers len, IsRow row ∧ row.init.length ≤ headers.length :=
    fun row hrow => mkRequestHeaderTocLoop_isRow hrow
  rw [mkRequestHeaderGet_fst hkey fun row hrow => (hrows row hrow).1] at h
  cases hrow : lookupRow (mkRequestHeaderTocParse headers len) key with
  | none =>
      rw [hrow] at h
      exact absurd (congrArg MkPointer.data h) (Option.some_ne_none data).symm
  | some row =>
      rw [hrow] at h
      obtain ⟨hdata, hcount⟩ := MkPointer.mk.inj h
      obtain rfl := Option.some.inj hdata
      obtain ⟨his, hle⟩ := hrows row (List.mem_of_find?_eq_some hrow)
      have hnul := strstr_no_nul his (by decide : mkCrlf ≠ [])
      have hin := his.length_le
      have hhas := List.find?_some hrow
      have hprefix := (List.isPrefixOf_iff_prefix.mp (Bool.and_eq_true_iff.mp hhas).2).length_le
      rw [List.length_map, List.length_map, HeaderTocRow.text, List.length_take] at hprefix
      rw [List.length_drop] at hn ⊢
      refine ⟨fun hmem => hnul ?_, by omega⟩
      have hkeyLe : key.length + 1 + n ≤ row.len := by
        unfold toULong at hcount
        omega
      rw [List.take_drop] at hmem
      exact (List.take_subset_take_left _ (by omega)) (List.mem_of_mem_drop hmem)

/-- **Header lookup**: a lookup is exact exactly when the row it finds has a blank behind the
key. -/
theorem header_get_iff {data : Bytes} {len : Int} {rows : List HeaderTocRow} {key : Bytes}
    (hlen : data.length < 2 ^ 64) (hkey : IsName key)
    (hrows : rows.map HeaderTocRow.span = (mkRequestHeaderTocParse data len).map HeaderTocRow.span) :
    LookupExact rows key (mkRequestHeaderGet rows key).1 ↔
      ∀ row, lookupRow rows key = some row → row.text[key.length]? = some 0x20 := by
  rw [mkRequestHeaderGet_fst hkey fun row hrow => (isRow_of_span hrows hrow).1]
  cases hrow : lookupRow rows key with
  | none =>
      refine iff_of_true ⟨iff_of_true rfl ?_, fun row h => ?_⟩ fun row h => ?_
      · simpa [lookupRow] using hrow
      · rw [hrow] at h
        contradiction
      · contradiction
  | some row =>
      have hmem : row ∈ rows := List.mem_of_find?_eq_some hrow
      have hcond := List.find?_some hrow
      rw [Bool.and_eq_true, Bool.not_eq_true'] at hcond
      obtain ⟨his, hle⟩ := isRow_of_span hrows hmem
      have hvalue := his.value_eq_iff hcond.2 (by omega)
      constructor
      · rintro hexact row' h
        obtain rfl := Option.some.inj h
        exact hvalue.mp (hexact.found row hrow)
      · intro hblank
        refine ⟨iff_of_false (Option.some_ne_none _) fun hall => ?_, fun row' h => ?_⟩
        · exact absurd (hall row hmem hcond.1) (by rw [hcond.2]; decide)
        · rw [hrow] at h
          obtain rfl := Option.some.inj h
          exact hvalue.mpr (hblank row rfl)

/-- A `Host` field with a blank. -/
theorem header_get_host : (mkRequestHeaderGet
    (mkRequestHeaderTocParse (ascii "A: b\r\nhost: a\r\n\r\n".toList) 13) rhHost).1 =
      ⟨some (ascii "a\r\n\r\n".toList), 1⟩ := by
  have hexact := (@header_get_iff (ascii "A: b\r\nhost: a\r\n\r\n".toList) 13
    (mkRequestHeaderTocParse (ascii "A: b\r\nhost: a\r\n\r\n".toList) 13) rhHost (by decide) (by decide)
    rfl).mpr (by rintro row ⟨⟩; decide)
  exact hexact.found ⟨ascii "host: a\r\n\r\n".toList, 7, false⟩ (by decide)

/-- Behind a row that ends with the colon the value has a negative length. -/
theorem not_header_get : ¬ ∀ (data : Bytes) (len : Int) (rows : List HeaderTocRow) (key : Bytes),
    data.length < 2 ^ 64 → IsName key →
    rows.map HeaderTocRow.span = (mkRequestHeaderTocParse data len).map HeaderTocRow.span →
    LookupExact rows key (mkRequestHeaderGet rows key).1 := by
  intro h
  have hexact := h (ascii "Host:\r\n\r\n".toList) 5
    (mkRequestHeaderTocParse (ascii "Host:\r\n\r\n".toList) 5) rhHost (by decide) (by decide) rfl
  have hvalue := hexact.found ⟨ascii "Host:\r\n\r\n".toList, 5, false⟩ (by decide)
  exact absurd (congrArg MkPointer.len hvalue) (by decide)

end Monkey
