import Monkey.Config.Create
import Monkey.Lib.Tokens

/-!
# Monkey.Config.Lines

What `mk_config_create` does with one line, by the form of the line: a header, or
behind the indentation nothing, a comment, or a key and a value.
-/

namespace Monkey.Config

variable {s : ConfigState} {off : Nat} {indent body before after buf : Bytes}

/-! ## the text of a line -/

theorem zero_notMem_lineBuf (piece : Bytes) : 0 ∉ lineBuf piece := by
  have h0 := zero_notMem_cstr piece
  have hdrop : ∀ {l : Bytes}, 0 ∉ l → 0 ∉ l.dropLast := fun hl hmem => hl (List.mem_of_mem_dropLast hmem)
  unfold lineBuf
  simp only
  split
  · split
    · exact hdrop (hdrop h0)
    · exact hdrop h0
  · exact h0

/-- A whole line that does not end in a carriage return. -/
theorem lineBuf_line {l : Bytes} (h0 : 0 ∉ l) (hcr : l.getLast? ≠ some 0x0d) : lineBuf (l ++ [0x0a]) = l := by
  have hcstr : cstr (l ++ [0x0a]) = l ++ [0x0a] := cstr_eq_self (by simpa using h0)
  simp [lineBuf, hcstr, hcr]

/-- Beyond its first bytes a text is only searched for blanks. -/
theorem byteAt_append (body : Bytes) : byteAt (indent ++ body) indent.length = body.headD 0 := by
  cases body <;> simp [byteAt]

/-! ## behind the indentation -/

theorem configEntry_mismatch (h0 : 0 ∉ indent) (h : ¬ indent <+: buf) :
    configEntry s off indent buf = { next := .error (.schema s.line "Invalid indentation level") } := by
  have hcmp : strncmp buf indent indent.length = false := by
    rw [← Bool.not_eq_true, strncmp_iff_isPrefix h0]
    exact h
  rw [configEntry, strlen, cstr_eq_self h0]
  exact if_pos (.inl hcmp)

theorem strncmp_append_self (h0 : 0 ∉ indent) : strncmp (indent ++ body) indent indent.length = true :=
  (strncmp_iff_isPrefix h0).mpr (List.prefix_append indent body)

theorem configEntry_blank (h0 : 0 ∉ indent) (h : isblank (body.headD 0) = true) :
    configEntry s off indent (indent ++ body) =
      { next := .error (.schema s.line "Invalid indentation level") } := by
  rw [configEntry, strlen, cstr_eq_self h0, byteAt_append]
  exact if_pos (.inr h)

/-- Nothing, or a comment. -/
theorem configEntry_skip (h0 : 0 ∉ indent) (h : body = [] ∨ body.head? = some 0x23) :
    configEntry s off indent (indent ++ body) = { next := .ok s } := by
  have hblank : isblank (body.headD 0) = false := by
    rcases h with rfl | h
    · rfl
    · rw [List.headD_eq_head?_getD, h]
      rfl
  have hskip : body.headD 0 = 0x23 ∨ indent.length = (indent ++ body).length := by
    rcases h with rfl | h
    · simp
    · exact .inl (by rw [List.headD_eq_head?_getD, h]; rfl)
  rw [configEntry, strlen, cstr_eq_self h0, byteAt_append, strncmp_append_self h0, hblank]
  simp only [Bool.true_eq_false, Bool.false_eq_true, or_self, if_false]
  exact if_pos hskip

/-- A text behind the indentation that is neither. -/
structure IsBody (body : Bytes) : Prop where
  ne_nil : body ≠ []
  visible : ∀ c ∈ body.head?, isblank c = false ∧ c ≠ 0x23

theorem isBody_iff {body : Bytes} :
    body ≠ [] ∧ body.head?.all (fun c => !isblank c && c != 0x23) = true ↔ IsBody body := by
  have hvisible : body.head?.all (fun c => !isblank c && c != 0x23) = true ↔
      ∀ c ∈ body.head?, isblank c = false ∧ c ≠ 0x23 := by
    cases body <;> simp
  rw [hvisible]
  exact ⟨fun ⟨h, h'⟩ => ⟨h, h'⟩, fun ⟨h, h'⟩ => ⟨h, h'⟩⟩

instance (body : Bytes) : Decidable (IsBody body) := decidable_of_iff _ isBody_iff

theorem IsBody.cons {c : UInt8} (hblank : isblank c = false) (hc : c ≠ 0x23) (body : Bytes) : IsBody (c :: body) :=
  ⟨List.cons_ne_nil c body, fun d hd => by simp_all⟩

/-- A text behind the indentation: blank, nothing or a comment, or a body. -/
theorem body_cases (body : Bytes) :
    isblank (body.headD 0) = true ∨ (body = [] ∨ body.head? = some 0x23) ∨ IsBody body := by
  cases body with
  | nil => exact .inr (.inl (.inl rfl))
  | cons c rest =>
      by_cases hblank : isblank c = true
      · exact .inl hblank
      · by_cases hc : c = 0x23
        · exact .inr (.inl (.inr (by rw [hc]; rfl)))
        · exact .inr (.inr (.cons (by simpa using hblank) hc rest))

/-- What is done with such a text. -/
theorem configEntry_body (h0 : 0 ∉ indent) (h : IsBody body) :
    configEntry s off indent (indent ++ body) = configKeyVal s off indent.length (indent ++ body) := by
  obtain ⟨c, rest, rfl⟩ := List.exists_cons_of_ne_nil h.ne_nil
  obtain ⟨hblank, hc⟩ := h.visible c rfl
  have hskip : ¬ (c = 0x23 ∨ indent.length = (indent ++ c :: rest).length) := by
    simp [hc]
  rw [configEntry, strlen, cstr_eq_self h0, byteAt_append, strncmp_append_self h0, List.headD_cons, hblank]
  simp only [Bool.true_eq_false, Bool.false_eq_true, or_self, if_false, if_neg hskip]

theorem length_sub_indent : ((indent ++ body).length : Int) - indent.length = body.length := by
  rw [List.length_append]
  omega

/-- The search for the end of the key. -/
theorem search_space (body : Bytes) :
    mkStringCharSearch body 0x20 body.length = position (body.findIdx? (· == 0x20)) := by
  rw [mkStringCharSearch, if_neg (by omega), memchr, Int.toNat_natCast, List.take_length]

/-- The first space of a text is one. -/
theorem before_eq {before' after' : Bytes} (h : before ++ 0x20 :: after = before' ++ 0x20 :: after')
    (hb : 0x20 ∉ before) (hb' : 0x20 ∉ before') : before = before' := by
  rw [← takeWhile_append_cons hb after, h, takeWhile_append_cons hb']

/-- A key without a value. -/
theorem configKeyVal_noSpace (hspace : 0x20 ∉ body) :
    configKeyVal s off indent.length (indent ++ body) =
      { copies := [substrReads (indent ++ body) indent.length 0 (-1),
          substrReads (indent ++ body) (indent.length + -1) 1 body.length]
        next := .error (.schema s.line "Each key must have a value") } := by
  have hi : mkStringCharSearch body 0x20 body.length = -1 := by
    rw [search_space, findIdx?_eq_none hspace]
    rfl
  have hkey : mkStringCopySubstr body 0 (-1) = none := rfl
  rw [configKeyVal]
  simp only [List.drop_left, length_sub_indent, hi, hkey]

/-- A key and a value, split at the first space. -/
theorem configKeyVal_entry (hspace : 0x20 ∉ before) :
    configKeyVal s off indent.length (indent ++ (before ++ 0x20 :: after)) =
      registerEntry s off [substrReads (indent ++ (before ++ 0x20 :: after)) indent.length 0 before.length,
        substrReads (indent ++ (before ++ 0x20 :: after)) (indent.length + before.length) 1
          (before ++ 0x20 :: after).length] (mkStringTrim before) (mkStringTrim after) := by
  have hi : mkStringCharSearch (before ++ 0x20 :: after) 0x20 (before ++ 0x20 :: after).length =
      (before.length : Int) := by
    rw [search_space, findIdx?_append_cons hspace]
    rfl
  have hkey : mkStringCopySubstr (before ++ 0x20 :: after) 0 (before.length : Nat) = some before := by
    rw [mkStringCopySubstr, if_neg (by omega)]
    simp
  have hval : mkStringCopySubstr ((indent ++ (before ++ 0x20 :: after)).drop
      (indent.length + (before.length : Int)).toNat) 1 (before ++ 0x20 :: after).length = some after := by
    have hdrop : (indent ++ (before ++ 0x20 :: after)).drop (indent.length + before.length) = 0x20 :: after := by
      rw [← List.append_assoc]
      exact List.drop_left' (by simp)
    have hlen : (before ++ 0x20 :: after).length = before.length + after.length + 1 := by
      rw [List.length_append, List.length_cons, Nat.add_assoc]
    rw [mkStringCopySubstr, hlen, if_neg (by omega), ← Nat.cast_add, Int.toNat_natCast, hdrop]
    simp only [Int.toNat_one, List.drop_succ_cons, List.drop_zero]
    rw [List.take_of_length_le (by omega)]
  have hneg : ¬ (before.length : Int) < 0 := by omega
  rw [configKeyVal]
  simp only [List.drop_left, length_sub_indent, hi, hkey, hval, if_neg hneg]

/-! ## one turn of the loop -/

theorem configLine_comment (h : buf.head? = some 0x23) :
    configLine s off buf = { next := .ok { s with line := s.line + 1 } } := by
  have hne : buf ≠ [] := by
    rintro rfl
    contradiction
  rw [configLine, if_neg hne, if_pos h]

/-- The end of the name of a section. -/
theorem search_bracket {name : Bytes} (hname : 0x5d ∉ name) :
    mkStringCharSearch (0x5b :: (name ++ 0x5d :: after)) 0x5d (0x5b :: (name ++ 0x5d :: after)).length =
      (name.length + 1 : Nat) := by
  have hnot : (0x5d : UInt8) ∉ 0x5b :: name := by
    simpa using hname
  rw [mkStringCharSearch, if_neg (by omega), memchr, Int.toNat_natCast, List.take_length,
    ← List.cons_append, findIdx?_append_cons hnot]
  rfl

/-- A header; `after` is not looked at. -/
theorem configLine_header {name : Bytes} (hname : 0x5d ∉ name) :
    configLine s off (0x5b :: (name ++ 0x5d :: after)) =
      if s.current = true ∧ s.nKeys = 0 then
        { next := .error (.schema (s.line + 1) "Previous section did not have keys") }
      else
        { copies := [substrReads (0x5b :: (name ++ 0x5d :: after)) 0 1 (name.length + 1 : Nat)],
          calls := [(off, .sectionAdd name)],
          next := .ok { s with
            line := s.line + 1, sections := mkConfigSectionAdd s.sections name, current := true, nKeys := 0 } } := by
  have hsubstr : mkStringCopySubstr (0x5b :: (name ++ 0x5d :: after)) 1 (name.length + 1 : Nat) = some name := by
    rw [mkStringCopySubstr, if_neg (by omega)]
    simp
  have hpos : ((name.length + 1 : Nat) : Int) > 0 := by omega
  rw [configLine, if_neg (List.cons_ne_nil _ _), if_neg (by simp), if_pos (by rfl), configHeader,
    search_bracket hname]
  simp only [if_pos hpos, hsubstr]

/-- A header without its end. -/
theorem configLine_header_open {rest : Bytes} (hrest : 0x5d ∉ rest) :
    configLine s off (0x5b :: rest) = { next := .error (.schema (s.line + 1) "Bad header definition") } := by
  have hlast : mkStringCharSearch (0x5b :: rest) 0x5d (0x5b :: rest).length = -1 := by
    have hnot : (0x5d : UInt8) ∉ 0x5b :: rest := by
      simpa using hrest
    rw [mkStringCharSearch, if_neg (by omega), memchr, Int.toNat_natCast, List.take_length,
      findIdx?_eq_none hnot]
    rfl
  rw [configLine, if_neg (List.cons_ne_nil _ _), if_neg (by simp), if_pos (by rfl), configHeader, hlast]
  rfl

/-- A line that is neither empty, a comment nor a header. -/
structure NeedsIndent (buf : Bytes) : Prop where
  ne_nil : buf ≠ []
  comment : buf.head? ≠ some 0x23
  header : buf.head? ≠ some 0x5b

instance (buf : Bytes) : Decidable (NeedsIndent buf) :=
  decidable_of_iff (buf ≠ [] ∧ buf.head? ≠ some 0x23 ∧ buf.head? ≠ some 0x5b)
    ⟨fun ⟨h, h', h''⟩ => ⟨h, h', h''⟩, fun ⟨h, h', h''⟩ => ⟨h, h', h''⟩⟩

/-- The indentation learnt from a line. -/
def learntIndent (buf : Bytes) : Bytes := buf.take (indentEnd buf)

theorem indentEnd_le (h : buf ≠ []) : indentEnd buf ≤ buf.length := by
  obtain ⟨c, rest, rfl⟩ := List.exists_cons_of_ne_nil h
  have := (List.takeWhile_sublist (l := rest) isblank).length_le
  simp only [indentEnd, List.drop_succ_cons, List.drop_zero, List.length_cons]
  omega

theorem learntIndent_isPrefix (buf : Bytes) : learntIndent buf <+: buf := List.take_prefix _ _

theorem substr_indent (buf : Bytes) : (mkStringCopySubstr buf 0 (indentEnd buf)).getD [] = learntIndent buf := by
  rw [mkStringCopySubstr, if_neg (by omega)]
  simp [learntIndent]

/-- The copy taken when the indentation is learnt. -/
def learnCopies (s : ConfigState) (buf : Bytes) : List Copy :=
  if s.indent = none then [substrReads buf 0 0 (indentEnd buf)] else []

/-- Such a line is read behind the indentation that is known or that it teaches. -/
theorem configLine_indented (h : NeedsIndent buf) (h0 : 0 ∉ buf) :
    configLine s off buf =
      let indent := s.indent.getD (learntIndent buf)
      let run := configEntry { s with line := s.line + 1, indent := some indent } off indent buf
      { run with copies := learnCopies s buf ++ run.copies } := by
  obtain ⟨line, indent, nKeys, current, sections⟩ := s
  rw [configLine, if_neg h.ne_nil, if_neg h.comment, if_neg h.header]
  cases indent with
  | some indent => rfl
  | none =>
      simp only [substr_indent, Option.getD_none, learnCopies, if_true, List.singleton_append]
      by_cases hend : indentEnd buf = buf.length
      · -- the line is all indentation
        have hself : learntIndent buf = buf := by rw [learntIndent, hend, List.take_length]
        have hskip := @configEntry_skip ⟨line + 1, some buf, nKeys, current, sections⟩ off buf [] h0 (.inl rfl)
        rw [List.append_nil] at hskip
        rw [if_pos hend, hself, hskip]
      · rw [if_neg hend]

theorem learntIndent_cons (c : UInt8) (rest : Bytes) :
    learntIndent (c :: rest) = c :: rest.takeWhile isblank := by
  have htake : rest.take (rest.takeWhile isblank).length = rest.takeWhile isblank :=
    (List.prefix_iff_eq_take.mp (List.takeWhile_prefix isblank)).symm
  rw [learntIndent, indentEnd, List.drop_succ_cons, List.drop_zero, Nat.add_comm, List.take_succ_cons, htake]

/-- The blanks in front of a text. -/
theorem takeWhile_isblank (hblank : ∀ c ∈ indent, isblank c = true) (hbody : isblank (body.headD 0) = false) :
    (indent ++ body).takeWhile isblank = indent := by
  rw [List.takeWhile_append_of_pos hblank]
  cases body with
  | nil => simp
  | cons c rest =>
      rw [List.headD_cons] at hbody
      simp [hbody]

/-- A run of blanks in front of a text is what is learnt. -/
theorem learntIndent_append (hne : indent ≠ []) (hblank : ∀ c ∈ indent, isblank c = true)
    (hbody : isblank (body.headD 0) = false) : learntIndent (indent ++ body) = indent := by
  obtain ⟨b, bs, rfl⟩ := List.exists_cons_of_ne_nil hne
  rw [List.cons_append, learntIndent_cons,
    takeWhile_isblank (fun c hc => hblank c (List.mem_cons_of_mem b hc)) hbody]

/-- What one turn does that is no error: with its calls and the state after it. -/
inductive LineDoes (s : ConfigState) (off : Nat) (buf : Bytes) : List (Nat × ConfigCall) → ConfigState → Prop
  | skip (h : buf = [] ∨ buf.head? = some 0x23) : LineDoes s off buf [] { s with line := s.line + 1 }
  | header {name after : Bytes} (hbuf : buf = 0x5b :: (name ++ 0x5d :: after)) (hname : 0x5d ∉ name)
      (hkeys : ¬ (s.current = true ∧ s.nKeys = 0)) :
      LineDoes s off buf [(off, .sectionAdd name)] { s with
        line := s.line + 1, sections := mkConfigSectionAdd s.sections name, current := true, nKeys := 0 }
  | behind {indent body : Bytes} (hneeds : NeedsIndent buf) (hindent : s.indent.getD (learntIndent buf) = indent)
      (hbuf : buf = indent ++ body) (hbody : body = [] ∨ body.head? = some 0x23) :
      LineDoes s off buf [] { s with line := s.line + 1, indent := some indent }
  | entry {indent before after : Bytes} {sections : List ConfigSection} (hneeds : NeedsIndent buf)
      (hindent : s.indent.getD (learntIndent buf) = indent) (hbuf : buf = indent ++ (before ++ 0x20 :: after))
      (hbody : IsBody (before ++ 0x20 :: after)) (hbefore : 0x20 ∉ before)
      (hadd : mkConfigEntryAdd s.sections (mkStringTrim before) (mkStringTrim after) = some sections) :
      LineDoes s off buf [(off, .entryAdd (mkStringTrim before) (mkStringTrim after))] { s with
        line := s.line + 1, indent := some indent, sections := sections, nKeys := s.nKeys + 1 }

/-- The indentation that is known or that the line teaches is a C string. -/
theorem zero_notMem_indent (h0 : 0 ∉ buf) (hs : ∀ indent ∈ s.indent, 0 ∉ indent) :
    0 ∉ s.indent.getD (learntIndent buf) := by
  cases hindent : s.indent with
  | none => exact fun hmem => h0 ((learntIndent_isPrefix buf).subset hmem)
  | some indent => exact hs indent hindent

theorem configHeader_does {s' : ConfigState} {rest : Bytes}
    (h : (configLine s off (0x5b :: rest)).next = .ok s') :
    LineDoes s off (0x5b :: rest) (configLine s off (0x5b :: rest)).calls s' := by
  by_cases hend : 0x5d ∈ rest
  · obtain ⟨name, after, rfl, hname⟩ := List.eq_append_cons_of_mem hend
    rw [configLine_header hname] at h ⊢
    split at h
    · contradiction
    · next hkeys =>
        obtain rfl := Except.ok.inj h
        rw [if_neg hkeys]
        exact .header rfl hname hkeys
  · rw [configLine_header_open hend] at h
    contradiction

/-- The cases of a turn. -/
theorem configLine_does {s' : ConfigState} (h0 : 0 ∉ buf) (hs : ∀ indent ∈ s.indent, 0 ∉ indent)
    (h : (configLine s off buf).next = .ok s') : LineDoes s off buf (configLine s off buf).calls s' := by
  by_cases hskip : buf = [] ∨ buf.head? = some 0x23
  · have hline : configLine s off buf = { next := .ok { s with line := s.line + 1 } } := by
      rcases hskip with rfl | hcomment
      · rfl
      · exact configLine_comment hcomment
    rw [hline] at h ⊢
    obtain rfl := Except.ok.inj h
    exact .skip hskip
  · obtain ⟨hne, hcomment⟩ := not_or.mp hskip
    by_cases hheader : buf.head? = some 0x5b
    · obtain ⟨c, rest, rfl⟩ := List.exists_cons_of_ne_nil hne
      obtain rfl := Option.some.inj hheader
      exact configHeader_does h
    · have hneeds : NeedsIndent buf := ⟨hne, hcomment, hheader⟩
      have h0' := zero_notMem_indent h0 hs
      rw [configLine_indented hneeds h0] at h ⊢
      obtain ⟨indent, hindent⟩ : ∃ indent, s.indent.getD (learntIndent buf) = indent := ⟨_, rfl⟩
      rw [hindent] at h0'
      simp only [hindent] at h ⊢
      by_cases hmatch : indent <+: buf
      · obtain ⟨body, rfl⟩ := hmatch
        rcases body_cases body with hblank | hskip | hbody
        · rw [configEntry_blank h0' hblank] at h
          contradiction
        · rw [configEntry_skip h0' hskip] at h ⊢
          obtain rfl := Except.ok.inj h
          exact .behind hneeds hindent rfl hskip
        · rw [configEntry_body h0' hbody] at h ⊢
          by_cases hspace : 0x20 ∈ body
          · obtain ⟨before, after, rfl, hbefore⟩ := List.eq_append_cons_of_mem hspace
            rw [configKeyVal_entry hbefore] at h ⊢
            unfold registerEntry at h ⊢
            split at h
            · contradiction
            · next sections hadd =>
                obtain rfl := Except.ok.inj h
                exact .entry hneeds hindent rfl hbody hbefore hadd
          · rw [configKeyVal_noSpace hspace] at h
            contradiction
      · rw [configEntry_mismatch h0' hmatch] at h
        contradiction

theorem LineDoes.keeps_indent {s' : ConfigState} {calls : List (Nat × ConfigCall)} (h : LineDoes s off buf calls s')
    (h0 : 0 ∉ buf) (hs : ∀ indent ∈ s.indent, 0 ∉ indent) : ∀ indent ∈ s'.indent, 0 ∉ indent := by
  have h0' := zero_notMem_indent h0 hs
  cases h with
  | skip => exact hs
  | header => exact hs
  | behind _ hindent => simpa [← hindent] using h0'
  | entry _ hindent => simpa [← hindent] using h0'

/-! ## the loop -/

/-- The loop goes through some pieces without an error. -/
def Reads (s : ConfigState) (off : Nat) (pieces : List Bytes) (s' : ConfigState) : Prop :=
  (configLines s off pieces).next = .ok s'

variable {s' s'' : ConfigState} {piece : Bytes} {xs ys : List Bytes}

theorem configLines_cons (h : (configLine s off (lineBuf piece)).next = .ok s') :
    configLines s off (piece :: xs) =
      { copies := (configLine s off (lineBuf piece)).copies ++ (configLines s' (off + piece.length) xs).copies
        calls := (configLine s off (lineBuf piece)).calls ++ (configLines s' (off + piece.length) xs).calls
        next := (configLines s' (off + piece.length) xs).next } := by
  rw [configLines, h]

theorem Reads.cons (h : (configLine s off (lineBuf piece)).next = .ok s')
    (hrest : Reads s' (off + piece.length) xs s'') : Reads s off (piece :: xs) s'' := by
  rw [Reads, configLines_cons h]
  exact hrest

theorem Reads.uncons (h : Reads s off (piece :: xs) s'') :
    ∃ s', (configLine s off (lineBuf piece)).next = .ok s' ∧ Reads s' (off + piece.length) xs s'' := by
  cases hnext : (configLine s off (lineBuf piece)).next with
  | error e =>
      rw [Reads, configLines, hnext] at h
      contradiction
  | ok s' =>
      rw [Reads, configLines_cons hnext] at h
      exact ⟨s', rfl, h⟩

theorem Reads.append (h : Reads s off xs s') (hrest : Reads s' (off + xs.flatten.length) ys s'') :
    Reads s off (xs ++ ys) s'' := by
  induction xs generalizing s off with
  | nil =>
      obtain rfl := Except.ok.inj h
      simpa using hrest
  | cons piece xs ih =>
      obtain ⟨s₁, hline, hxs⟩ := h.uncons
      rw [List.flatten_cons, List.length_append, ← Nat.add_assoc] at hrest
      exact .cons hline (ih hxs hrest)

end Monkey.Config
