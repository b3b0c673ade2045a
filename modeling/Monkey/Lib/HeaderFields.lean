import Monkey.Lib.CString
import Monkey.Lib.Lines

/-!
# Monkey.Lib.HeaderFields

A header as a client reads it: a first line, then fields up to an empty line, each with a
name, a colon and a value, and each line ended by CRLF.

A header composed of texts of one line is read back as it was composed, and what follows the
empty line is left alone (`readHeader_compose`).
-/

namespace Monkey

def crlfText : Bytes := [0x0d, 0x0a]

/-- A field and the end of its line. -/
def fieldLine (f : Bytes × Bytes) : Bytes := f.1 ++ [0x3a, 0x20] ++ f.2 ++ crlfText

/-- The lines of a header: the first one, the fields, and the empty one. -/
def composeHeader (start : Bytes) (fields : List (Bytes × Bytes)) : Bytes :=
  start ++ crlfText ++ (fields.map fieldLine).flatten ++ crlfText

/-- A line without its CRLF. -/
def lineBody (line : Bytes) : Bytes := line.take (line.length - 2)

/-- The name and the value of a line; blanks in front of the value do not count. -/
def readField (line : Bytes) : Bytes × Bytes :=
  ((lineBody line).takeWhile (· ≠ 0x3a), (((lineBody line).dropWhile (· ≠ 0x3a)).drop 1).dropWhile (· = 0x20))

/-- The first line, the fields, and what is behind the first empty line. -/
def readHeader (s : Bytes) : Bytes × List (Bytes × Bytes) × Bytes :=
  let lines := cutAfter 0x0a s
  let head := lines.takeWhile (· ≠ crlfText)
  (lineBody (head.headD []), head.tail.map readField, ((lines.dropWhile (· ≠ crlfText)).drop 1).flatten)

/-- A field that a client can read back. -/
structure IsField (f : Bytes × Bytes) : Prop where
  name : 0x3a ∉ f.1 ∧ 0x0a ∉ f.1
  value : 0x0a ∉ f.2 ∧ f.2.head? ≠ some 0x20

theorem lineBody_append (text : Bytes) : lineBody (text ++ crlfText) = text := by
  rw [lineBody, List.length_append]
  exact List.take_left' rfl

/-- A field is read back. -/
theorem readField_fieldLine {f : Bytes × Bytes} (h : IsField f) : readField (fieldLine f) = f := by
  obtain ⟨name, value⟩ := f
  have hname : ∀ c ∈ name, decide (c ≠ 0x3a) = true := by
    intro c hc
    rw [decide_eq_true_eq]
    rintro rfl
    exact h.name.1 hc
  have hvalue : value.dropWhile (· = 0x20) = value := by
    cases value with
    | nil => rfl
    | cons c value =>
        have hc : c ≠ 0x20 := fun heq => h.value.2 (by rw [heq]; rfl)
        rw [List.dropWhile_cons_of_neg (by simpa using hc)]
  rw [readField, fieldLine, lineBody_append]
  simp only [List.append_assoc, List.cons_append, List.nil_append]
  rw [List.takeWhile_append_of_pos hname, List.dropWhile_append_of_pos hname,
    List.takeWhile_cons_of_neg (by decide), List.dropWhile_cons_of_neg (by decide), List.append_nil]
  rw [List.drop_succ_cons, List.drop_zero, List.dropWhile_cons_of_pos (by decide), hvalue]

/-- A line that is not the empty one. -/
theorem text_ne_crlf {text : Bytes} (h : text ≠ []) : text ++ crlfText ≠ crlfText := by
  intro heq
  have hlen := congrArg List.length heq
  rw [List.length_append] at hlen
  exact h (List.length_eq_zero_iff.mp (by omega))

/-- **A header is read back** as it was composed, and the body behind it is left alone. -/
theorem readHeader_compose {start : Bytes} (hne : start ≠ []) (hstart : 0x0a ∉ start)
    {fields : List (Bytes × Bytes)} (hfields : ∀ f ∈ fields, IsField f) (body : Bytes) :
    readHeader (composeHeader start fields ++ body) = (start, fields, body) := by
  obtain ⟨lines, hlines⟩ : ∃ lines, (start ++ crlfText) :: fields.map fieldLine = lines := ⟨_, rfl⟩
  have hpieces : ∀ l ∈ lines, IsPiece 0x0a l ∧ 0x0a ∈ l := by
    have hended : ∀ text : Bytes, 0x0a ∉ text → IsPiece 0x0a (text ++ crlfText) ∧ 0x0a ∈ text ++ crlfText := by
      intro text htext
      have hsplit : text ++ crlfText = (text ++ [0x0d]) ++ [0x0a] := by simp [crlfText]
      rw [hsplit]
      exact ⟨isPiece_line (by simpa using htext), by simp⟩
    intro l hl
    rw [← hlines] at hl
    rcases List.mem_cons.mp hl with rfl | hl
    · exact hended start hstart
    · obtain ⟨f, hf, rfl⟩ := List.mem_map.mp hl
      have hfield := hfields f hf
      apply hended
      simp only [List.mem_append, not_or]
      exact ⟨⟨hfield.name.2, by decide⟩, hfield.value.1⟩
  have hnot : ∀ l ∈ lines, decide (l ≠ crlfText) = true := by
    intro l hl
    rw [decide_eq_true_eq]
    rw [← hlines] at hl
    rcases List.mem_cons.mp hl with rfl | hl
    · exact text_ne_crlf hne
    · obtain ⟨f, -, rfl⟩ := List.mem_map.mp hl
      exact text_ne_crlf (by simp)
  have htext : composeHeader start fields ++ body = lines.flatten ++ (crlfText ++ body) := by
    rw [← hlines, composeHeader, List.flatten_cons]
    simp only [List.append_assoc]
  have hempty : cutAfter 0x0a (crlfText ++ body) = crlfText :: cutAfter 0x0a body :=
    @cutAfter_line _ _ _ [0x0d] (by decide) body
  have hcut : cutAfter 0x0a (composeHeader start fields ++ body) = lines ++ crlfText :: cutAfter 0x0a body := by
    rw [htext, cutAfter_lines hpieces, hempty]
  simp only [readHeader, hcut]
  rw [List.takeWhile_append_of_pos hnot, List.dropWhile_append_of_pos hnot, List.takeWhile_cons_of_neg (by simp),
    List.dropWhile_cons_of_neg (by simp), List.append_nil, List.drop_succ_cons, List.drop_zero, flatten_cutAfter,
    ← hlines, List.headD_cons, List.tail_cons, lineBody_append, List.map_map]
  have hread : fields.map (readField ∘ fieldLine) = fields := by
    conv_rhs => rw [← List.map_id fields]
    exact List.map_congr_left fun f hf => readField_fieldLine (hfields f hf)
  rw [hread]

end Monkey
