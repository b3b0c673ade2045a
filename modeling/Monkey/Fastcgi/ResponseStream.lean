import Monkey.Fastcgi.ResponseHead
import Monkey.Lib.Extent
import Monkey.Lib.Tokens

/-!
# Monkey.Fastcgi.ResponseStream

The output of a backend as one stream, however it was cut into records.  The header is
looked for in the first record only, with its length as the bound of every search.

The specification takes the output as one text: lines up to an empty one, and the body.  What
the code does depends on where the backend has cut the text into records, and on what lies in
memory behind the first of them (`beyond`), so both are arguments.  The condition for the two
to agree is on the first record alone (`HeadInFirst`).
-/

namespace Monkey.Fastcgi

/-! ## the stream -/

/-- What a stream of output says: the header lines, whether an empty line ends them, and the
body. -/
structure StreamHead where
  lines : List Bytes := []
  ended : Bool := false
  body : Bytes
deriving DecidableEq, Repr

/-- The lines of a stream up to the first empty one; the fuel is for its bytes. -/
def splitHead : Nat → Bytes → StreamHead
  | 0, s => { body := s }
  | fuel + 1, s =>
      match memchr s 0x0a s.length with
      | none => { body := s }
      | some k =>
          if s.take k = [] ∨ s.take k = [0x0d] then { ended := true, body := s.drop (k + 1) }
          else
            let rest := splitHead fuel (s.drop (k + 1))
            { rest with lines := s.take (k + 1) :: rest.lines }

/-- The head of a stream. -/
def streamHead (s : Bytes) : StreamHead := splitHead s.length s

/-- How many bytes of a stream are not its body. -/
def headLen (s : Bytes) : Nat := s.length - (streamHead s).body.length

/-! ## what is read -/

/-- The end of what the searches of `fcgi_parse_cgi_headers` read, from position `pos` on. -/
def searchReach (entry beyond : Bytes) : Nat → Nat → Nat
  | 0, pos => pos
  | fuel + 1, pos =>
      if pos < entry.length then
        match memchr ((entry ++ beyond).drop pos) 0x0a entry.length with
        | none => pos + entry.length
        | some k => if k ≤ 2 then pos + k + 1 else searchReach entry beyond fuel (pos + k + 1)
      else pos

/-- The line that starts here has its number read. -/
def isStatus (line : Bytes) : Bool :=
  !(strncasecmp line contentTypeName 14 || strncasecmp line locationName 10) && strncasecmp line statusName 8

/-- A line with what follows it alone. -/
def ownLine (l : Bytes × Nat) : Bytes × Nat := (l.1.take l.2, l.2)

/-- A status line without a value. -/
def blankStatus (l : Bytes × Nat) : Bool := isStatus (ownLine l).1 && ((ownLine l).1.drop 8).all isspace

/-- The number `sscanf` finds behind a status line without a value. -/
def borrowed (l : Bytes × Nat) : Option Int := if blankStatus l then sscanfInt (l.1.drop l.2) else none

/-- The lines of a stream, each alone. -/
def ownLines (lines : List Bytes) : List (Bytes × Nat) := lines.map fun line => (line, line.length)

/-- The first record of the output. -/
def firstRecord (q : Request) : Bytes := q.iov.io.headD []

/-! ## what is sent -/

/-- The response is that of the stream: its lines give the header, its body is what follows them
and is as long as the header says, and nothing but the first record is read for the header. -/
structure SentAsStream (q : Request) (beyond : Bytes) : Prop where
  sent : ∃ iov, iov.bytes = (streamHead q.iov.bytes).body ∧
    fcgiSendResponseHeaders q beyond = some ({ q with iov := iov, headersSent := true },
      [.headerSend q.fd (streamHead q.iov.bytes).lines (streamHead q.iov.bytes).body.length])
  fields : ∀ h : ResponseHeaders, h.status = mkHttpOk → fcgiCgiHeaders h (firstRecord q) beyond =
    (ownLines (streamHead q.iov.bytes).lines).foldlM (fun h l => fcgiHandleCgiHeader h l.1 l.2) h
  status : headStatus (headerLines (firstRecord q) beyond) = headStatus (ownLines (streamHead q.iov.bytes).lines)
  searches : searchReach (firstRecord q) beyond (firstRecord q).length 0 ≤ (firstRecord q).length
  numbers : ∀ l ∈ headerLines (firstRecord q) beyond, isStatus l.1 = true →
    (firstRecord q ++ beyond).length - l.1.length + (8 + atoiReach (l.1.drop 8)) ≤ (firstRecord q).length

/-- The head of the stream is in its first record, none of its lines looks empty, and where no
empty line ends it the record ends with it; a number behind a status line without a value ends in
the record too, and is the one the lines before it give, if no line behind has one. -/
structure HeadInFirst (q : Request) : Prop where
  present : 0 < headLen q.iov.bytes
  inside : headLen q.iov.bytes ≤ (firstRecord q).length
  long : ∀ line ∈ (streamHead q.iov.bytes).lines, 3 < line.length
  ended : (streamHead q.iov.bytes).ended = true ∨ headLen q.iov.bytes = (firstRecord q).length
  numbers : ∀ before l behind, linesFrom (firstRecord q) (streamHead q.iov.bytes).lines = before ++ l :: behind →
    blankStatus l = true → afterNumber (l.1.drop l.2) ≠ [] ∧
      ∀ n, sscanfInt (l.1.drop l.2) = some n → (∀ m ∈ behind, lineStatus m = none) →
        n = headStatus (before.map ownLine)

/-! ## the lines of a stream -/

/-- A line as a search for its end leaves it. -/
def IsHeadLine (line : Bytes) : Prop := ∃ t, line = t ++ [0x0a] ∧ 0x0a ∉ t

theorem splitHead_of_notMem {s : Bytes} (h : 0x0a ∉ s) (fuel : Nat) : splitHead fuel s = { body := s } := by
  cases fuel with
  | zero => rfl
  | succ fuel => rw [splitHead, memchr_eq_none fun hmem => h (List.mem_of_mem_take hmem)]

theorem splitHead_append_cons {t : Bytes} (h : 0x0a ∉ t) (u : Bytes) (fuel : Nat) :
    splitHead (fuel + 1) (t ++ 0x0a :: u) =
      if t = [] ∨ t = [0x0d] then { ended := true, body := u }
      else { splitHead fuel u with lines := (t ++ [0x0a]) :: (splitHead fuel u).lines } := by
  have hdrop : (t ++ 0x0a :: u).drop (t.length + 1) = u := by
    rw [← List.singleton_append, ← List.append_assoc]
    exact List.drop_left' (by simp)
  have htake : (t ++ 0x0a :: u).take (t.length + 1) = t ++ [0x0a] := by
    rw [← List.singleton_append, ← List.append_assoc]
    exact List.take_left' (by simp)
  rw [splitHead, memchr_append_cons h u (by simp)]
  simp only [List.take_left, hdrop, htake]

/-- **The parts of a stream**: its header lines, the empty line if there is one, and its body. -/
theorem splitHead_spec {fuel : Nat} {s : Bytes} (h : s.length ≤ fuel) :
    (∃ e, s = (splitHead fuel s).lines.flatten ++ (e ++ (splitHead fuel s).body) ∧
      ((splitHead fuel s).ended = true → e ≠ []) ∧ ((splitHead fuel s).ended = false → e = [])) ∧
    ∀ line ∈ (splitHead fuel s).lines, IsHeadLine line := by
  induction fuel generalizing s with
  | zero => exact ⟨⟨[], rfl, by simp [splitHead], fun _ => rfl⟩, by simp [splitHead]⟩
  | succ fuel ih =>
      by_cases hmem : 0x0a ∈ s
      · obtain ⟨t, u, rfl, ht⟩ := List.eq_append_cons_of_mem hmem
        rw [splitHead_append_cons ht]
        split
        · exact ⟨⟨t ++ [0x0a], by simp, by simp, by simp⟩, by simp⟩
        · obtain ⟨⟨e, heq, hended, hopen⟩, hlines⟩ := @ih u (by simp at h; omega)
          refine ⟨⟨e, ?_, hended, hopen⟩, List.forall_mem_cons.mpr ⟨⟨t, rfl, ht⟩, hlines⟩⟩
          rw [List.flatten_cons, List.append_assoc, ← heq, List.append_assoc, List.singleton_append]
      · rw [splitHead_of_notMem hmem]
        exact ⟨⟨[], rfl, by simp, fun _ => rfl⟩, by simp⟩

/-! ## the search in the first record -/

section search

variable {entry beyond : Bytes}

theorem le_searchReach (fuel pos : Nat) : pos ≤ searchReach entry beyond fuel pos := by
  induction fuel generalizing pos with
  | zero => exact le_rfl
  | succ fuel ih =>
      rw [searchReach]
      split
      · cases memchr ((entry ++ beyond).drop pos) 0x0a entry.length with
        | none => exact Nat.le_add_right _ _
        | some k =>
            dsimp only
            split
            · omega
            · exact (show pos ≤ pos + k + 1 by omega).trans (ih _)
      · exact le_rfl

/-- A line that ends in the record is found. -/
theorem memchr_inside {pos : Nat} {t u : Bytes} (h : entry.drop pos = t ++ 0x0a :: u) (ht : 0x0a ∉ t) :
    memchr ((entry ++ beyond).drop pos) 0x0a entry.length = some t.length ∧
      (entry ++ beyond).drop pos = t ++ 0x0a :: (u ++ beyond) ∧ pos + t.length < entry.length := by
  have hlen := congrArg List.length h
  rw [List.length_drop, List.length_append, List.length_cons] at hlen
  have hmem : (entry ++ beyond).drop pos = t ++ 0x0a :: (u ++ beyond) := by
    rw [List.drop_append_of_le_length (by omega), h, List.append_assoc, List.cons_append]
  exact ⟨by rw [hmem, memchr_append_cons ht _ (by omega)], hmem, by omega⟩

theorem parseHeaderLines_end (fuel : Nat) : parseHeaderLines entry beyond fuel entry.length = (entry.length, []) := by
  cases fuel with
  | zero => rfl
  | succ fuel => rw [parseHeaderLines, if_neg (lt_irrefl _)]

theorem searchReach_end (fuel : Nat) : searchReach entry beyond fuel entry.length = entry.length := by
  cases fuel with
  | zero => rfl
  | succ fuel => rw [searchReach, if_neg (lt_irrefl _)]

/-- A search for a line that does not end in the record goes on behind it, except for the first
one, which finds nothing. -/
theorem search_outside {fuel pos : Nat} (hpos : pos < entry.length) (hnone : 0x0a ∉ entry.drop pos) :
    entry.length < searchReach entry beyond (fuel + 1) pos ∨
      pos = 0 ∧ parseHeaderLines entry beyond (fuel + 1) pos = (0, []) := by
  rw [searchReach, if_pos hpos, parseHeaderLines, if_pos hpos]
  cases hfind : memchr ((entry ++ beyond).drop pos) 0x0a entry.length with
  | none =>
      rcases Nat.eq_zero_or_pos pos with rfl | h0
      · exact .inr ⟨rfl, rfl⟩
      · exact .inl (by dsimp only; omega)
  | some k =>
      -- the line end is one of the bytes behind the record
      have hk : entry.length ≤ pos + k := by
        by_contra hlt
        refine hnone ?_
        have hat := memchr_getElem? hfind
        rw [List.getElem?_drop, List.getElem?_append_left (by omega), ← List.getElem?_drop] at hat
        exact List.mem_of_getElem? hat
      refine .inl ?_
      dsimp only
      split
      · omega
      · exact (show entry.length < pos + k + 1 by omega).trans_le (le_searchReach _ _)

variable {rest : Bytes}

theorem length_body_le (fuel : Nat) {s : Bytes} (h : s.length ≤ fuel) : (splitHead fuel s).body.length ≤ s.length := by
  obtain ⟨⟨e, heq, -⟩, -⟩ := splitHead_spec h
  have hlen := congrArg List.length heq
  simp only [List.length_append] at hlen
  omega

/-- A head that takes no bytes has no lines. -/
theorem lines_eq_nil {fuel : Nat} {s : Bytes} (h : s.length ≤ fuel) (h0 : s.length - (splitHead fuel s).body.length = 0) :
    (splitHead fuel s).lines = [] := by
  obtain ⟨⟨e, heq, -⟩, hlines⟩ := splitHead_spec h
  have hlen := congrArg List.length heq
  simp only [List.length_append] at hlen
  cases hcons : (splitHead fuel s).lines with
  | nil => rfl
  | cons line lines =>
      rw [hcons] at hlen hlines
      obtain ⟨t, rfl, -⟩ := hlines line List.mem_cons_self
      rw [List.flatten_cons, List.length_append, List.length_append, List.length_singleton] at hlen
      omega

/-- The first line of a stream takes its bytes. -/
theorem lt_length_head {t : Bytes} (ht : 0x0a ∉ t) (u : Bytes) {fuel : Nat} (h : (t ++ 0x0a :: u).length ≤ fuel) :
    t.length < (t ++ 0x0a :: u).length - (splitHead fuel (t ++ 0x0a :: u)).body.length := by
  rw [List.length_append, List.length_cons] at h ⊢
  obtain ⟨fuel, rfl⟩ := Nat.exists_eq_add_of_le' (show 1 ≤ fuel by omega)
  rw [splitHead_append_cons ht]
  split
  · dsimp only
    omega
  · have hbody := @length_body_le fuel u (by omega)
    dsimp only
    omega

/-- The search from a position on finds the head of a stream that takes `used` bytes, reads the
record only and has found something. -/
def SearchFinds (entry beyond : Bytes) (fuel pos used : Nat) (head : StreamHead) : Prop :=
  parseHeaderLines entry beyond fuel pos = (pos + used, head.lines) ∧
    searchReach entry beyond fuel pos ≤ entry.length ∧ 0 < pos + used

/-- The head of a stream from a position on is in the record as it should be. -/
def HeadHere (entry : Bytes) (pos used : Nat) (head : StreamHead) : Prop :=
  0 < pos + used ∧ used ≤ entry.length - pos ∧ (∀ line ∈ head.lines, 3 < line.length) ∧
    (head.ended = true ∨ used = entry.length - pos)

/-- At the end of the record. -/
theorem searchFinds_end_iff (fuel : Nat) {fuel' used : Nat} (hfuel' : rest.length ≤ fuel')
    (hused : used = rest.length - (splitHead fuel' rest).body.length) :
    SearchFinds entry beyond fuel entry.length used (splitHead fuel' rest) ↔
      HeadHere entry entry.length used (splitHead fuel' rest) := by
  rw [SearchFinds, HeadHere, parseHeaderLines_end, searchReach_end, Prod.mk.injEq, Nat.sub_self]
  constructor
  · rintro ⟨⟨hend, hlines⟩, -, hpos⟩
    exact ⟨hpos, by omega, by simp [← hlines], .inr (by omega)⟩
  · rintro ⟨hpos, hend, -, -⟩
    exact ⟨⟨by omega, (lines_eq_nil hfuel' (by omega)).symm⟩, le_rfl, hpos⟩

/-- A line that does not end in the record is not found, and is not in it. -/
theorem searchFinds_outside_iff (fuel : Nat) {pos fuel' used : Nat} (hlt : pos < entry.length)
    (hnone : 0x0a ∉ entry.drop pos) (hfuel' : (entry.drop pos ++ rest).length ≤ fuel')
    (hused : used = (entry.drop pos ++ rest).length - (splitHead fuel' (entry.drop pos ++ rest)).body.length) :
    SearchFinds entry beyond (fuel + 1) pos used (splitHead fuel' (entry.drop pos ++ rest)) ↔
      HeadHere entry pos used (splitHead fuel' (entry.drop pos ++ rest)) := by
  refine iff_of_false ?_ ?_
  · rintro ⟨hparse, hreach, hfound⟩
    rcases @search_outside entry beyond fuel pos hlt hnone with hfar | ⟨rfl, hnothing⟩
    · omega
    · rw [hnothing] at hparse
      have hoff := (Prod.mk.inj hparse).1
      omega
  · rintro ⟨-, hinside, -, hdone⟩
    by_cases hrest : 0x0a ∈ rest
    · obtain ⟨t, u, rfl, ht⟩ := List.eq_append_cons_of_mem hrest
      have hfirst : 0x0a ∉ entry.drop pos ++ t := by simp [hnone, ht]
      rw [← List.append_assoc] at hused hfuel'
      have hfar := lt_length_head hfirst u hfuel'
      rw [← hused, List.length_append, List.length_drop] at hfar
      omega
    · rw [splitHead_of_notMem (by simp [hnone, hrest])] at hused hdone
      dsimp only at hused hdone
      rw [Nat.sub_self] at hused
      rcases hdone with hended | hall
      · contradiction
      · omega

/-- A line that ends in the record: what is behind it is searched from there, if it is long
enough. -/
theorem searchFinds_line_iff (fuel : Nat) {pos fuel' used : Nat} {t u : Bytes} (hsplit : entry.drop pos = t ++ 0x0a :: u)
    (ht : 0x0a ∉ t) (hfuel' : (t ++ 0x0a :: (u ++ rest)).length ≤ fuel' + 1)
    (hused : used = (t ++ 0x0a :: (u ++ rest)).length - (splitHead (fuel' + 1) (t ++ 0x0a :: (u ++ rest))).body.length)
    (hnext : ∀ used', used' = (u ++ rest).length - (splitHead fuel' (u ++ rest)).body.length →
      (SearchFinds entry beyond fuel (pos + t.length + 1) used' (splitHead fuel' (u ++ rest)) ↔
        HeadHere entry (pos + t.length + 1) used' (splitHead fuel' (u ++ rest)))) :
    SearchFinds entry beyond (fuel + 1) pos used (splitHead (fuel' + 1) (t ++ 0x0a :: (u ++ rest))) ↔
      HeadHere entry pos used (splitHead (fuel' + 1) (t ++ 0x0a :: (u ++ rest))) := by
  obtain ⟨hfind, hmemory, hin⟩ := @memchr_inside entry beyond pos t u hsplit ht
  have htake : ((entry ++ beyond).drop pos).take (t.length + 1) = t ++ [0x0a] := by
    rw [hmemory, ← List.singleton_append, ← List.append_assoc]
    exact List.take_left' (by simp)
  have hlen := congrArg List.length hsplit
  simp only [List.length_drop, List.length_append, List.length_cons] at hlen hfuel'
  unfold SearchFinds HeadHere
  rw [parseHeaderLines, searchReach, if_pos (by omega), if_pos (by omega), hfind]
  rw [splitHead_append_cons ht] at hused ⊢
  simp only [List.length_append, List.length_cons] at hused
  dsimp only
  rw [htake]
  by_cases hempty : t = [] ∨ t = [0x0d]
  · -- the empty line
    have hshort : t.length ≤ 2 := by
      obtain rfl | rfl := hempty <;> simp
    rw [if_pos hempty] at hused ⊢
    rw [if_pos hshort, if_pos hshort]
    simp only [List.length_append] at hused
    refine iff_of_true ⟨by rw [hused]; congr 1; omega, by omega, by omega⟩ ⟨by omega, by omega, by simp, .inl rfl⟩
  · rw [if_neg hempty] at hused ⊢
    simp only [List.forall_mem_cons, List.length_append, List.length_singleton]
    by_cases hshort : t.length ≤ 2
    · -- too short for the code, but a line
      rw [if_pos hshort, if_pos hshort]
      exact iff_of_false (fun h => List.cons_ne_nil _ _ (Prod.mk.inj h.1).2.symm) (fun h => by omega)
    · rw [if_neg hshort, if_neg hshort]
      have hbody := @length_body_le fuel' (u ++ rest) (by rw [List.length_append]; omega)
      rw [List.length_append] at hbody
      dsimp only at hused
      have hih := hnext _ rfl
      rw [SearchFinds, HeadHere, List.length_append] at hih
      have hsum : pos + used = pos + t.length + 1 +
          (u.length + rest.length - (splitHead fuel' (u ++ rest)).body.length) := by omega
      rw [Prod.ext_iff] at hih
      rw [hsum, Prod.mk.injEq, List.cons.injEq]
      constructor
      · rintro ⟨⟨hoff, -, hlines⟩, hreach, hpos'⟩
        obtain ⟨-, hinside, hshape, hdone⟩ := hih.mp ⟨⟨hoff, hlines⟩, hreach, by omega⟩
        exact ⟨hpos', by omega, ⟨by omega, hshape⟩, hdone.imp_right fun h => by omega⟩
      · rintro ⟨hpos', hinside, ⟨-, hshape⟩, hdone⟩
        obtain ⟨⟨hoff, hlines⟩, hreach, -⟩ := hih.mpr
          ⟨by omega, by omega, hshape, hdone.imp_right fun h => by omega⟩
        exact ⟨⟨hoff, rfl, hlines⟩, hreach, hpos'⟩

/-- **The search from a position on** finds the head of the stream there exactly when the head is
in the record as it should be. -/
theorem searchFinds_iff (fuel : Nat) {pos fuel' used : Nat} (hpos : pos ≤ entry.length) (hfuel : entry.length - pos ≤ fuel)
    (hfuel' : (entry.drop pos ++ rest).length ≤ fuel')
    (hused : used = (entry.drop pos ++ rest).length - (splitHead fuel' (entry.drop pos ++ rest)).body.length) :
    SearchFinds entry beyond fuel pos used (splitHead fuel' (entry.drop pos ++ rest)) ↔
      HeadHere entry pos used (splitHead fuel' (entry.drop pos ++ rest)) := by
  induction fuel generalizing pos fuel' used with
  | zero =>
      obtain rfl : pos = entry.length := by omega
      rw [List.drop_length, List.nil_append] at hfuel' hused ⊢
      exact searchFinds_end_iff 0 hfuel' hused
  | succ fuel ih =>
      rcases hpos.eq_or_lt with rfl | hlt
      · rw [List.drop_length, List.nil_append] at hfuel' hused ⊢
        exact searchFinds_end_iff (fuel + 1) hfuel' hused
      by_cases hmem : 0x0a ∈ entry.drop pos
      · obtain ⟨t, u, hsplit, ht⟩ := List.eq_append_cons_of_mem hmem
        have hlen := congrArg List.length hsplit
        rw [List.length_drop, List.length_append, List.length_cons] at hlen
        have hnext : entry.drop (pos + t.length + 1) = u := by
          rw [show pos + t.length + 1 = pos + (t.length + 1) by omega, ← List.drop_drop, hsplit,
            ← List.singleton_append, ← List.append_assoc]
          exact List.drop_left' (by simp)
        rw [hsplit, List.append_assoc, List.cons_append] at hfuel' hused ⊢
        have hall : t.length + (u.length + rest.length + 1) ≤ fuel' := by simpa using hfuel'
        obtain ⟨fuel', rfl⟩ := Nat.exists_eq_add_of_le' (show 1 ≤ fuel' by omega)
        refine searchFinds_line_iff fuel hsplit ht hfuel' hused fun used' hused' => ?_
        have hih := @ih (pos + t.length + 1) fuel' used' (by omega) (by omega)
        rw [hnext] at hih
        exact hih (by rw [List.length_append]; omega) hused'
      · exact searchFinds_outside_iff fuel hlt hmem hfuel' hused

end search

/-! ## one line -/

section line

variable {line : Bytes}

theorem IsHeadLine.mem (h : IsHeadLine line) : 0x0a ∈ line := by
  obtain ⟨t, rfl, -⟩ := h
  simp

/-- A name without a line end is compared in the line. -/
theorem IsHeadLine.strncasecmp_append (h : IsHeadLine line) {name : Bytes} {n : Nat} (hn : n ≤ name.length)
    (hname : ∀ d ∈ name, toupper 0x0a ≠ toupper d) (v : Bytes) :
    strncasecmp (line ++ v) name n = strncasecmp line name n :=
  strncmpWith_append_stop hn ⟨0x0a, h.mem, hname⟩ v

theorem IsHeadLine.names_append (h : IsHeadLine line) (v : Bytes) :
    strncasecmp (line ++ v) contentTypeName 14 = strncasecmp line contentTypeName 14 ∧
      strncasecmp (line ++ v) locationName 10 = strncasecmp line locationName 10 ∧
      strncasecmp (line ++ v) statusName 8 = strncasecmp line statusName 8 :=
  ⟨h.strncasecmp_append (by decide) (by decide +kernel) v, h.strncasecmp_append (by decide) (by decide +kernel) v,
    h.strncasecmp_append (by decide) (by decide +kernel) v⟩

theorem IsHeadLine.isStatus_append (h : IsHeadLine line) (v : Bytes) : isStatus (line ++ v) = isStatus line := by
  obtain ⟨htype, hlocation, hstatus⟩ := h.names_append v
  rw [isStatus, isStatus, htype, hlocation, hstatus]

theorem length_of_isStatus (h : isStatus line = true) : 8 ≤ line.length := by
  rw [isStatus, Bool.and_eq_true] at h
  have hle := ((@strncasecmp_iff_isPrefix line statusName (by decide)).mp h.2).length_le
  rwa [List.length_map, List.length_map] at hle

theorem lineStatus_eq (l : Bytes × Nat) : lineStatus l = if isStatus l.1 then sscanfInt (l.1.drop 8) else none := by
  rw [lineStatus, isStatus]
  cases strncasecmp l.1 contentTypeName 14 || strncasecmp l.1 locationName 10 <;>
    cases strncasecmp l.1 statusName 8 <;> rfl

/-- Blanks in front of a number are read over. -/
theorem sscanfInt_blank {u : Bytes} (h : ∀ c ∈ u, isspace c = true) (v : Bytes) : sscanfInt (u ++ v) = sscanfInt v := by
  rw [sscanfInt, sscanfInt, List.dropWhile_append_of_pos h, strtol, strtol, List.dropWhile_append_of_pos h]

theorem unsigned_eq (s : Bytes) :
    unsigned s = if s.head? = some 0x2d ∨ s.head? = some 0x2b then s.tail else s := by
  cases s with
  | nil => rfl
  | cons c s =>
      by_cases hminus : c = 0x2d
      · subst hminus
        rfl
      · by_cases hplus : c = 0x2b
        · subst hplus
          rfl
        · rw [unsigned_of_ne hminus hplus, if_neg (by simp [hminus, hplus])]

/-- A number that ends in the first bytes. -/
theorem sscanfInt_append {u : Bytes} (h : afterNumber u ≠ []) (v : Bytes) : sscanfInt (u ++ v) = sscanfInt u := by
  have hnumber : u.dropWhile isspace ≠ [] := by
    intro hnil
    apply h
    rw [afterNumber, hnil]
    rfl
  have hrest : unsigned (u.dropWhile isspace) ≠ [] := by
    intro hnil
    apply h
    rw [afterNumber, hnil]
    rfl
  rw [sscanfInt, sscanfInt, strtol_append h]
  simp only [← unsigned_eq]
  rw [dropWhile_append_of_ne_nil hnumber, unsigned_append hnumber]
  obtain ⟨c, s, hcons⟩ := List.exists_cons_of_ne_nil hrest
  rw [hcons, List.cons_append]
  rfl

/-- The value of a status line that is not blank ends in the line. -/
theorem IsHeadLine.afterNumber_value (h : IsHeadLine line) (hlong : 8 < line.length)
    (hvalue : ¬ ((line.drop 8).all isspace = true)) : afterNumber (line.drop 8) ≠ [] := by
  obtain ⟨t, rfl, -⟩ := h
  rw [List.length_append, List.length_singleton] at hlong
  rw [List.drop_append_of_le_length (by omega)] at hvalue ⊢
  refine afterNumber_ne_nil ?_
  by_contra hall
  refine hvalue (List.all_eq_true.mpr fun c hc => ?_)
  obtain hc | hc := List.mem_append.mp hc
  · by_contra hspace
    exact hall ⟨c, hc, by simpa using hspace⟩
  · rw [List.mem_singleton.mp hc]
    rfl

/-- **A status line** alone gives its own number; without a value it gives the one behind it. -/
theorem IsHeadLine.lineStatus_append (h : IsHeadLine line) (v : Bytes) :
    lineStatus (line ++ v, line.length) =
      if blankStatus (line ++ v, line.length) then sscanfInt v else lineStatus (line, line.length) := by
  rw [lineStatus_eq, lineStatus_eq]
  simp only [blankStatus, ownLine, List.take_left, h.isStatus_append]
  cases hstatus : isStatus line with
  | false => rfl
  | true =>
      have hlong := length_of_isStatus hstatus
      simp only [if_true, Bool.true_and]
      rw [List.drop_append_of_le_length hlong]
      by_cases hblank : (line.drop 8).all isspace = true
      · rw [if_pos hblank, sscanfInt_blank (List.all_eq_true.mp hblank)]
      · have hne : line.drop 8 ≠ [] := by
          intro hnil
          rw [hnil] at hblank
          exact hblank rfl
        have h8 : 8 < line.length := by
          by_contra hle
          exact hne (List.drop_eq_nil_of_le (by omega))
        rw [if_neg hblank, sscanfInt_append (h.afterNumber_value h8 hblank)]

/-- A blank value gives no number. -/
theorem lineStatus_ownLine_of_blank {l : Bytes × Nat} (h : blankStatus l = true) : lineStatus (ownLine l) = none := by
  rw [blankStatus, Bool.and_eq_true] at h
  rw [lineStatus_eq, if_pos h.1, ← List.append_nil ((ownLine l).1.drop 8), sscanfInt_blank (List.all_eq_true.mp h.2)]
  rfl

/-- The number of a status line is read in the memory `v` behind it exactly when it has a value
or the number there ends in `v`. -/
theorem IsHeadLine.atoiReach_le_iff (h : IsHeadLine line) (hstatus : isStatus line = true) (v w : Bytes) :
    8 + atoiReach ((line ++ v ++ w).drop 8) ≤ (line ++ v).length ↔
      (blankStatus (line ++ v, line.length) = true → afterNumber v ≠ []) := by
  have hlong := length_of_isStatus hstatus
  have hdrop : (line ++ v ++ w).drop 8 = (line.drop 8 ++ v) ++ w := by
    rw [List.append_assoc, List.drop_append_of_le_length hlong, List.append_assoc]
  have hlen : (line ++ v).length = 8 + (line.drop 8 ++ v).length := by
    rw [List.length_append, List.length_append, List.length_drop]
    omega
  rw [hdrop, hlen, Nat.add_le_add_iff_left, atoiReach_append_le_iff]
  simp only [blankStatus, ownLine, List.take_left, hstatus, Bool.true_and]
  by_cases hblank : (line.drop 8).all isspace = true
  · rw [afterNumber_blank (List.all_eq_true.mp hblank)]
    exact ⟨fun hne _ => hne, fun hne => hne hblank⟩
  · refine iff_of_true ?_ fun hall => absurd hall hblank
    have h8 : 8 < line.length := by
      by_contra hle
      rw [List.drop_eq_nil_of_le (by omega)] at hblank
      exact hblank rfl
    have hvalue := h.afterNumber_value h8 hblank
    rw [afterNumber_append hvalue]
    simp [hvalue]

end line

/-! ## the last number -/

/-- Two readings of a list, one of which finds something more at some places, find the same last
value exactly when what it finds there, with nothing behind, is what the other finds before. -/
theorem getLast?_filterMap_iff {α β : Type*} {f g b : α → Option β} {d : β} (l : List α)
    (hboth : ∀ a ∈ l, g a ≠ none → f a = g a ∧ b a = none) (hmore : ∀ a ∈ l, g a = none → f a = b a) :
    (l.filterMap f).getLast?.getD d = (l.filterMap g).getLast?.getD d ↔
      ∀ before a behind, l = before ++ a :: behind → ∀ n, b a = some n → (∀ m ∈ behind, f m = none) →
        n = (before.filterMap g).getLast?.getD d := by
  induction l using List.reverseRecOn with
  | nil => simp
  | append_singleton l c ih =>
      have ih := ih (fun a ha => hboth a (List.mem_append_left _ ha)) (fun a ha => hmore a (List.mem_append_left _ ha))
      have hc : c ∈ l ++ [c] := by simp
      -- the last element is the only one with nothing behind it, if it has a value
      have hlast : ∀ {n}, f c = some n → ((∀ before a behind, l ++ [c] = before ++ a :: behind → ∀ n, b a = some n →
          (∀ m ∈ behind, f m = none) → n = (before.filterMap g).getLast?.getD d) ↔
          ∀ n, b c = some n → n = (l.filterMap g).getLast?.getD d) := by
        intro n hn
        constructor
        · exact fun h n hb => h l c [] rfl n hb (by simp)
        · intro h before a behind hsplit n hb hnone
          rcases List.eq_nil_or_concat behind with rfl | ⟨behind, m, rfl⟩
          · obtain ⟨rfl, hac⟩ := List.append_inj' hsplit rfl
            obtain rfl := List.singleton_inj.mp hac
            exact h n hb
          · rw [List.concat_eq_append, ← List.cons_append, ← List.append_assoc] at hsplit
            obtain ⟨-, hmc⟩ := List.append_inj' hsplit rfl
            obtain rfl := List.singleton_inj.mp hmc
            have hno := hnone c (by simp)
            rw [hn] at hno
            contradiction
      have hsingle : ∀ h : α → Option β, [c].filterMap h = (h c).toList := by
        intro h
        cases hh : h c <;> simp [hh]
      rw [List.filterMap_append, List.filterMap_append, hsingle, hsingle]
      cases hg : g c with
      | some n =>
          obtain ⟨hf, hb⟩ := hboth c hc (by simp [hg])
          rw [hlast (hf.trans hg), hf, hg, hb]
          simp
      | none =>
          have hf := hmore c hc hg
          cases hb : b c with
          | some n =>
              rw [hlast (hf.trans hb), hf, hb]
              simp
          | none =>
              rw [hf, hb, Option.toList_none, List.append_nil, List.append_nil, ih]
              constructor
              · intro h before a behind hsplit n hn hnone
                rcases List.eq_nil_or_concat behind with rfl | ⟨behind, m, rfl⟩
                · obtain ⟨-, hac⟩ := List.append_inj' hsplit rfl
                  obtain rfl := List.singleton_inj.mp hac
                  rw [hb] at hn
                  contradiction
                · rw [List.concat_eq_append, ← List.cons_append, ← List.append_assoc] at hsplit
                  obtain ⟨hsplit, -⟩ := List.append_inj' hsplit rfl
                  exact h before a behind hsplit n hn fun m' hm' => hnone m' (by simp [hm'])
              · intro h before a behind hsplit n hn hnone
                refine h before a (behind ++ [c]) (by rw [hsplit]; simp) n hn fun m hm => ?_
                obtain hm | hm := List.mem_append.mp hm
                · exact hnone m hm
                · rw [List.mem_singleton.mp hm, hf, hb]

/-! ## the lines in memory -/

/-- A line with more memory behind it. -/
def beforeMemory (beyond : Bytes) (l : Bytes × Nat) : Bytes × Nat := (l.1 ++ beyond, l.2)

/-- The fields without the status. -/
def noStatus (h : ResponseHeaders) : ResponseHeaders := { h with status := 0 }

theorem eq_of_noStatus {h h' : ResponseHeaders} (hsame : noStatus h = noStatus h') : h = { h' with status := h.status } :=
  calc h = { noStatus h with status := h.status } := rfl
    _ = { noStatus h' with status := h.status } := by rw [hsame]
    _ = { h' with status := h.status } := rfl

section memory

variable {lines : List Bytes} {w beyond : Bytes}

theorem linesFrom_append : linesFrom (lines.flatten ++ w ++ beyond) lines =
    (linesFrom (lines.flatten ++ w) lines).map (beforeMemory beyond) := by
  induction lines with
  | nil => rfl
  | cons line lines ih =>
      rw [List.append_assoc] at ih
      simp only [linesFrom, List.flatten_cons, List.append_assoc, List.drop_left, List.map_cons, ih]
      simp [beforeMemory]

theorem linesFrom_ownLine : (linesFrom (lines.flatten ++ w) lines).map ownLine = ownLines lines := by
  induction lines with
  | nil => rfl
  | cons line lines ih =>
      simp only [linesFrom, List.flatten_cons, List.append_assoc, List.drop_left, List.map_cons, ownLines, ih]
      simp [ownLine]

theorem mem_linesFrom {l : Bytes × Nat} (h : l ∈ linesFrom (lines.flatten ++ w) lines) :
    ∃ line v, line ∈ lines ∧ l = (line ++ v, line.length) ∧ (line ++ v).length ≤ (lines.flatten ++ w).length := by
  induction lines with
  | nil => simp [linesFrom] at h
  | cons line lines ih =>
      simp only [linesFrom, List.flatten_cons, List.append_assoc, List.drop_left, List.mem_cons] at h
      obtain rfl | h := h
      · exact ⟨line, lines.flatten ++ w, List.mem_cons_self, rfl, by simp⟩
      · obtain ⟨line', v, hmem, rfl, hle⟩ := ih h
        refine ⟨line', v, List.mem_cons_of_mem _ hmem, rfl, hle.trans ?_⟩
        rw [List.flatten_cons, List.append_assoc]
        exact (List.suffix_append line _).length_le

theorem blankStatus_beforeMemory {line v : Bytes} :
    blankStatus (beforeMemory beyond (line ++ v, line.length)) = blankStatus (line ++ v, line.length) := by
  simp only [blankStatus, ownLine, beforeMemory, List.append_assoc, List.take_left]

/-- One line does the same with memory behind it, except for a status that it does not have. -/
theorem fcgiHandleCgiHeader_own {line : Bytes} (hline : IsHeadLine line) (v : Bytes) (h : ResponseHeaders) (s : Int) :
    (fcgiHandleCgiHeader h (line ++ v) line.length).map noStatus =
      (fcgiHandleCgiHeader { h with status := s } line line.length).map noStatus := by
  obtain ⟨htype, hlocation, hstatus⟩ := hline.names_append v
  have hpos : 0 < line.length := List.length_pos_of_mem hline.mem
  rw [fcgiHandleCgiHeader, fcgiHandleCgiHeader, htype, hlocation, hstatus]
  split
  · simp [noStatus]
  split
  · have hend : (line ++ v)[line.length - 2]? = (line)[line.length - 2]? := List.getElem?_append_left (by omega)
    have hvalue : ∀ n, n ≤ line.length - 10 → ((line ++ v).drop 10).take n = (line.drop 10).take n := by
      intro n hn
      rw [List.drop_append, List.take_append_of_le_length (by rwa [List.length_drop])]
    simp only [hend, hvalue _ (Nat.sub_le _ _)]
    rfl
  split
  · cases sscanfInt ((line ++ v).drop 8) <;> cases sscanfInt (line.drop 8) <;> rfl
  · rw [List.take_left, List.take_length]
    show Option.map noStatus (Option.map _ (mkIovAddEntry (extraRowsIov h) line [])) =
      Option.map noStatus (Option.map _ (mkIovAddEntry (extraRowsIov h) line []))
    rw [Option.map_map, Option.map_map]
    rfl

theorem foldlM_own (hlines : ∀ line ∈ lines, IsHeadLine line) (h : ResponseHeaders) (s : Int) :
    ((linesFrom (lines.flatten ++ w) lines).foldlM (fun h l => fcgiHandleCgiHeader h l.1 l.2) h).map noStatus =
      ((ownLines lines).foldlM (fun h l => fcgiHandleCgiHeader h l.1 l.2) { h with status := s }).map noStatus := by
  induction lines generalizing h s with
  | nil => rfl
  | cons line lines ih =>
      obtain ⟨hline, hrest⟩ := List.forall_mem_cons.mp hlines
      simp only [linesFrom, List.flatten_cons, List.append_assoc, List.drop_left, ownLines, List.map_cons,
        List.foldlM_cons]
      have hone := fcgiHandleCgiHeader_own hline (lines.flatten ++ w) h s
      cases hmem : fcgiHandleCgiHeader h (line ++ (lines.flatten ++ w)) line.length with
      | none =>
          rw [hmem, Option.map_none] at hone
          rw [Option.map_eq_none_iff.mp hone.symm]
          rfl
      | some h₁ =>
          rw [hmem, Option.map_some] at hone
          obtain ⟨h₂, hown, hsame⟩ := Option.map_eq_some_iff.mp hone.symm
          have hih := ih hrest h₁ h₂.status
          rw [← eq_of_noStatus hsame] at hih
          rw [hown]
          exact hih

/-- The numbers are read in the record exactly when those behind a status line without a value
end there. -/
theorem numbers_inside_iff (hlines : ∀ line ∈ lines, IsHeadLine line) :
    (∀ l ∈ linesFrom (lines.flatten ++ w ++ beyond) lines, isStatus l.1 = true →
      (lines.flatten ++ w ++ beyond).length - l.1.length + (8 + atoiReach (l.1.drop 8)) ≤ (lines.flatten ++ w).length) ↔
    ∀ l ∈ linesFrom (lines.flatten ++ w) lines, blankStatus l = true → afterNumber (l.1.drop l.2) ≠ [] := by
  rw [linesFrom_append, List.forall_mem_map]
  refine forall₂_congr fun l hl => ?_
  obtain ⟨line, v, hmem, rfl, hle⟩ := mem_linesFrom hl
  have hline := hlines line hmem
  have hplace : (lines.flatten ++ w ++ beyond).length - (line ++ v ++ beyond).length +
      (8 + atoiReach ((line ++ v ++ beyond).drop 8)) ≤ (lines.flatten ++ w).length ↔
      8 + atoiReach ((line ++ v ++ beyond).drop 8) ≤ (line ++ v).length := by
    have hmemory : (lines.flatten ++ w ++ beyond).length = (lines.flatten ++ w).length + beyond.length :=
      List.length_append
    have hfrom : (line ++ v ++ beyond).length = (line ++ v).length + beyond.length := List.length_append
    omega
  simp only [beforeMemory, hplace, List.drop_left]
  rw [List.append_assoc line v, hline.isStatus_append, ← List.append_assoc]
  constructor
  · intro h hblank
    have hstatus : isStatus line = true := by
      simp only [blankStatus, ownLine, List.take_left, Bool.and_eq_true] at hblank
      exact hblank.1
    exact (hline.atoiReach_le_iff hstatus v beyond).mp (h hstatus) hblank
  · exact fun h hstatus => (hline.atoiReach_le_iff hstatus v beyond).mpr h

/-- **The status of the header** is that of its lines alone exactly when no status line without a
value, with no number behind its own, finds another one. -/
theorem headStatus_own_iff (hlines : ∀ line ∈ lines, IsHeadLine line)
    (hnumbers : ∀ l ∈ linesFrom (lines.flatten ++ w) lines, blankStatus l = true → afterNumber (l.1.drop l.2) ≠ []) :
    headStatus (linesFrom (lines.flatten ++ w ++ beyond) lines) = headStatus (ownLines lines) ↔
      ∀ before l behind, linesFrom (lines.flatten ++ w) lines = before ++ l :: behind → ∀ n, borrowed l = some n →
        (∀ m ∈ behind, lineStatus m = none) → n = headStatus (before.map ownLine) := by
  have hinside : (linesFrom (lines.flatten ++ w) lines).filterMap (lineStatus ∘ beforeMemory beyond) =
      (linesFrom (lines.flatten ++ w) lines).filterMap lineStatus := by
    refine List.filterMap_congr fun l hl => ?_
    obtain ⟨line, v, hmem, rfl, -⟩ := mem_linesFrom hl
    have hblank := hnumbers _ hl
    have hmemory := (hlines line hmem).lineStatus_append (v ++ beyond)
    rw [← List.append_assoc] at hmemory
    show lineStatus (line ++ v ++ beyond, line.length) = lineStatus (line ++ v, line.length)
    rw [hmemory, (hlines line hmem).lineStatus_append v]
    have hsame := @blankStatus_beforeMemory beyond line v
    rw [beforeMemory] at hsame
    rw [hsame]
    split
    · next hb =>
        rw [sscanfInt_append]
        simpa using hblank hb
    · rfl
  have hown : ∀ l : List (Bytes × Nat), headStatus (l.map ownLine) =
      (l.filterMap (lineStatus ∘ ownLine)).getLast?.getD mkHttpOk := by
    intro l
    rw [headStatus, List.filterMap_map]
  rw [linesFrom_append, headStatus, List.filterMap_map, hinside, ← linesFrom_ownLine (w := w), hown]
  simp only [hown]
  refine getLast?_filterMap_iff _ ?_ ?_
  · intro l hl hg
    obtain ⟨line, v, hmem, rfl, -⟩ := mem_linesFrom hl
    have hnot : ¬ blankStatus (line ++ v, line.length) = true := fun hb => hg (lineStatus_ownLine_of_blank hb)
    refine ⟨?_, if_neg hnot⟩
    rw [(hlines line hmem).lineStatus_append v, if_neg hnot]
    simp [ownLine]
  · intro l hl hg
    obtain ⟨line, v, hmem, rfl, -⟩ := mem_linesFrom hl
    rw [(hlines line hmem).lineStatus_append v, borrowed]
    split
    · rw [List.drop_left]
    · rw [← hg]
      simp [ownLine]

/-- The fields are those of the lines alone when the status is. -/
theorem fcgiCgiHeaders_own (hlines : ∀ line ∈ lines, IsHeadLine line)
    (hstatus : headStatus (linesFrom (lines.flatten ++ w) lines) = headStatus (ownLines lines))
    {h : ResponseHeaders} (h0 : h.status = mkHttpOk) :
    (linesFrom (lines.flatten ++ w) lines).foldlM (fun h l => fcgiHandleCgiHeader h l.1 l.2) h =
      (ownLines lines).foldlM (fun h l => fcgiHandleCgiHeader h l.1 l.2) h := by
  have hsame := @foldlM_own lines w hlines h h.status
  have hmemory := foldlM_lines (linesFrom (lines.flatten ++ w) lines) h
  have hown := foldlM_lines (ownLines lines) h
  cases hfold : (linesFrom (lines.flatten ++ w) lines).foldlM (fun h l => fcgiHandleCgiHeader h l.1 l.2) h with
  | none =>
      rw [hfold, Option.map_none] at hsame
      exact (Option.map_eq_none_iff.mp hsame.symm).symm
  | some h₁ =>
      rw [hfold, Option.map_some] at hsame
      obtain ⟨h₂, hfold', hequal⟩ := Option.map_eq_some_iff.mp hsame.symm
      rw [hfold] at hmemory
      rw [hfold'] at hown
      split at hmemory
      case isFalse => contradiction
      split at hown
      case isFalse => contradiction
      obtain ⟨_, heq, -, hs⟩ := hmemory
      obtain rfl := Option.some.inj heq
      obtain ⟨_, heq, -, hs'⟩ := hown
      obtain rfl := Option.some.inj heq
      have hsum : h₁.status = h₂.status := by
        rw [hs, hs', h0]
        exact hstatus
      rw [hfold', eq_of_noStatus hequal, ← hsum]

end memory

/-! ## the response -/

section response

variable {q : Request} {beyond : Bytes}

/-- The body is what is not head. -/
theorem drop_headLen (s : Bytes) : s.drop (headLen s) = (streamHead s).body := by
  obtain ⟨⟨e, hparts, -⟩, -⟩ := @splitHead_spec _ s le_rfl
  rw [← List.append_assoc] at hparts
  have hlen := congrArg List.length hparts
  rw [List.length_append] at hlen
  have hhead : headLen s = ((streamHead s).lines.flatten ++ e).length := by
    rw [headLen, streamHead]
    omega
  calc s.drop (headLen s)
      = ((streamHead s).lines.flatten ++ e ++ (streamHead s).body).drop (headLen s) := congrArg _ hparts
    _ = (streamHead s).body := by rw [hhead, List.drop_left]

/-- What is sent is what the search in the first record gives. -/
theorem fcgiSendResponseHeaders_cons (hhead : q.headersSent = false) {entry : Bytes} {rest : List Bytes}
    (hio : q.iov.io = entry :: rest) :
    fcgiSendResponseHeaders q beyond =
      (chunkIovDrop q.iov (fcgiParseCgiHeaders entry beyond).1).map fun iov =>
        ({ q with iov := iov, headersSent := true },
          [.headerSend q.fd (fcgiParseCgiHeaders entry beyond).2 (chunkIovLength iov)]) := by
  simp only [fcgiSendResponseHeaders, hhead, hio]
  rfl

/-- The header is sent as the stream has it, and its searches stay in the first record, exactly
when the head of the stream is there as it should be. -/
theorem sent_iff (hhead : q.headersSent = false) :
    ((∃ iov, iov.bytes = (streamHead q.iov.bytes).body ∧
      fcgiSendResponseHeaders q beyond = some ({ q with iov := iov, headersSent := true },
        [.headerSend q.fd (streamHead q.iov.bytes).lines (streamHead q.iov.bytes).body.length])) ∧
      searchReach (firstRecord q) beyond (firstRecord q).length 0 ≤ (firstRecord q).length) ↔
    0 < headLen q.iov.bytes ∧ headLen q.iov.bytes ≤ (firstRecord q).length ∧
      (∀ line ∈ (streamHead q.iov.bytes).lines, 3 < line.length) ∧
      ((streamHead q.iov.bytes).ended = true ∨ headLen q.iov.bytes = (firstRecord q).length) := by
  cases hio : q.iov.io with
  | nil =>
      refine iff_of_false ?_ ?_
      · rintro ⟨⟨iov, -, hsent⟩, -⟩
        simp [fcgiSendResponseHeaders, hhead, hio] at hsent
      · rintro ⟨hpos, -⟩
        rw [ChunkIov.bytes, hio] at hpos
        exact absurd hpos (by decide)
  | cons entry rest =>
      have hstream : q.iov.bytes = entry ++ rest.flatten := by rw [ChunkIov.bytes, hio, List.flatten_cons]
      have hfirst : firstRecord q = entry := by rw [firstRecord, hio]; rfl
      have hiff : fcgiParseCgiHeaders entry beyond = (headLen q.iov.bytes, (streamHead q.iov.bytes).lines) ∧
          searchReach entry beyond entry.length 0 ≤ entry.length ∧ 0 < headLen q.iov.bytes ↔
          0 < headLen q.iov.bytes ∧ headLen q.iov.bytes ≤ entry.length ∧
            (∀ line ∈ (streamHead q.iov.bytes).lines, 3 < line.length) ∧
            ((streamHead q.iov.bytes).ended = true ∨ headLen q.iov.bytes = entry.length) := by
        have hiff := @searchFinds_iff entry beyond rest.flatten entry.length 0 (entry ++ rest.flatten).length
          _ (Nat.zero_le _) le_rfl le_rfl rfl
        simp only [SearchFinds, HeadHere, List.drop_zero, Nat.zero_add, Nat.sub_zero, ← hstream] at hiff
        exact hiff
      rw [hfirst]
      refine Iff.trans ?_ hiff
      have hshort : headLen q.iov.bytes ≤ q.iov.bytes.length := Nat.sub_le _ _
      rw [fcgiSendResponseHeaders_cons hhead hio]
      constructor
      · rintro ⟨⟨iov, hrest, hsent⟩, hreach⟩
        obtain ⟨iov', hdrop, heq⟩ := Option.map_eq_some_iff.mp hsent
        simp only [Prod.mk.injEq, List.cons.injEq, Effect.headerSend.injEq, true_and, and_true] at heq
        obtain ⟨hq, hlines, -⟩ := heq
        have hiov : iov' = iov := congrArg Request.iov hq
        subst hiov
        have hoff := (chunkIovDrop_eq_some hdrop).1
        rw [hrest] at hoff
        rw [chunkIovDrop] at hdrop
        split at hdrop
        case isFalse => contradiction
        next hrange =>
          rw [chunkIovLength_eq] at hrange
          have hlen := congrArg List.length hoff
          rw [List.length_drop] at hlen
          have hused : (fcgiParseCgiHeaders entry beyond).1 = headLen q.iov.bytes := by
            rw [headLen]
            omega
          exact ⟨Prod.ext hused hlines, hreach, hused ▸ hrange.1⟩
      · rintro ⟨hparse, hreach, hpos⟩
        rw [hparse]
        have hdrop : chunkIovDrop q.iov (headLen q.iov.bytes) =
            some { q.iov with io := dropEntries q.iov.io (headLen q.iov.bytes) } := by
          rw [chunkIovDrop, if_pos ⟨hpos, by rwa [chunkIovLength_eq]⟩]
        have hrest := (chunkIovDrop_eq_some hdrop).1
        rw [drop_headLen] at hrest
        refine ⟨⟨_, hrest, ?_⟩, hreach⟩
        rw [hdrop, Option.map_some, chunkIovLength_eq, hrest]

/-- A head in the first record is a beginning of it. -/
theorem firstRecord_eq (hinside : headLen q.iov.bytes ≤ (firstRecord q).length) :
    ∃ w, firstRecord q = (streamHead q.iov.bytes).lines.flatten ++ w := by
  obtain ⟨⟨e, hparts, -⟩, -⟩ := @splitHead_spec _ q.iov.bytes le_rfl
  have hlen := congrArg List.length hparts
  simp only [List.length_append] at hlen
  have hrecord : firstRecord q <+: q.iov.bytes := by
    rw [firstRecord, ChunkIov.bytes]
    cases q.iov.io with
    | nil => exact List.nil_prefix
    | cons entry rest => exact List.prefix_append _ _
  have hlines : (streamHead q.iov.bytes).lines.flatten <+: q.iov.bytes := by
    rw [streamHead]
    conv_rhs => rw [hparts]
    exact List.prefix_append _ _
  obtain ⟨w, hw⟩ := List.prefix_of_prefix_length_le hlines hrecord (by
    rw [headLen, streamHead] at hinside
    rw [streamHead]
    omega)
  exact ⟨w, hw.symm⟩

theorem sent_rows (hhead : q.headersSent = false) {q' : Request} {rows : List Bytes} {n : Nat}
    (h : fcgiSendResponseHeaders q beyond = some (q', [.headerSend q.fd rows n])) :
    (fcgiParseCgiHeaders (firstRecord q) beyond).2 = rows := by
  simp only [fcgiSendResponseHeaders, hhead] at h
  cases hio : q.iov.io with
  | nil => simp [hio] at h
  | cons entry rest =>
      simp only [hio, Bool.false_eq_true, if_false] at h
      obtain ⟨iov, -, heq⟩ := Option.map_eq_some_iff.mp h
      simp only [Prod.mk.injEq, List.cons.injEq, Effect.headerSend.injEq, true_and, and_true] at heq
      rw [firstRecord, hio]
      exact heq.2.1

/-- **The response is that of the stream** exactly when the head of the stream is in the first
record as it should be: of all ways to cut a stream into records only those give its header, its
body and its length. -/
theorem sent_as_stream_iff (hhead : q.headersSent = false) : SentAsStream q beyond ↔ HeadInFirst q := by
  have hlines : ∀ line ∈ (streamHead q.iov.bytes).lines, IsHeadLine line := (splitHead_spec le_rfl).2
  constructor
  · intro h
    obtain ⟨hpos, hinside, hlong, hended⟩ := (sent_iff hhead).mp ⟨h.sent, h.searches⟩
    obtain ⟨w, hw⟩ := firstRecord_eq hinside
    obtain ⟨iov, -, hsent⟩ := h.sent
    have hnumbers := h.numbers
    have hstatus := h.status
    rw [headerLines, sent_rows hhead hsent, hw] at hnumbers hstatus
    have hends := (numbers_inside_iff hlines).mp hnumbers
    have hlast := (headStatus_own_iff hlines hends).mp hstatus
    refine ⟨hpos, hinside, hlong, hended, fun before l behind hsplit hblank => ?_⟩
    rw [hw] at hsplit
    refine ⟨hends l (hsplit ▸ by simp) hblank, fun n hn hnone => hlast before l behind hsplit n ?_ hnone⟩
    rw [borrowed, if_pos hblank, hn]
  · intro h
    obtain ⟨hsent, hsearches⟩ := (@sent_iff q beyond hhead).mpr ⟨h.present, h.inside, h.long, h.ended⟩
    obtain ⟨w, hw⟩ := firstRecord_eq h.inside
    have hrows : (fcgiParseCgiHeaders (firstRecord q) beyond).2 = (streamHead q.iov.bytes).lines := by
      obtain ⟨iov, -, hsent⟩ := hsent
      exact sent_rows hhead hsent
    have hnumbers := h.numbers
    have hmemory : headerLines (firstRecord q) beyond =
        linesFrom ((streamHead q.iov.bytes).lines.flatten ++ w ++ beyond) (streamHead q.iov.bytes).lines := by
      rw [headerLines, hrows, hw]
    rw [hw] at hnumbers
    have hends : ∀ l ∈ linesFrom ((streamHead q.iov.bytes).lines.flatten ++ w) (streamHead q.iov.bytes).lines,
        blankStatus l = true → afterNumber (l.1.drop l.2) ≠ [] := by
      intro l hl hblank
      obtain ⟨before, behind, hsplit⟩ := List.append_of_mem hl
      exact (hnumbers before l behind hsplit hblank).1
    have hstatus : headStatus (headerLines (firstRecord q) beyond) =
        headStatus (ownLines (streamHead q.iov.bytes).lines) := by
      rw [hmemory]
      refine (headStatus_own_iff hlines hends).mpr fun before l behind hsplit n hn hnone => ?_
      by_cases hblank : blankStatus l = true
      · rw [borrowed, if_pos hblank] at hn
        exact (hnumbers before l behind hsplit hblank).2 n hn hnone
      · rw [borrowed, if_neg hblank] at hn
        contradiction
    refine ⟨hsent, fun h0 hok => ?_, hstatus, hsearches, ?_⟩
    · rw [hmemory, List.append_assoc] at hstatus
      rw [fcgiCgiHeaders, hmemory, List.append_assoc]
      exact fcgiCgiHeaders_own hlines hstatus hok
    · rw [hmemory, hw]
      exact (numbers_inside_iff hlines).mpr hends

end response

/-- A header in the first of two records. -/
theorem sent_as_stream_two_records :
    SentAsStream { iov := { io := [ascii "Status: 404\nX: y\n\nn".toList, ascii "one".toList] } } [] := by
  refine (sent_as_stream_iff rfl).mpr ⟨by decide +kernel, by decide +kernel, by decide +kernel,
    .inl (by decide +kernel), fun before l behind hsplit hblank => ?_⟩
  have hvalues : ∀ l ∈ linesFrom (ascii "Status: 404\nX: y\n\nn".toList)
      (streamHead (ascii "Status: 404\nX: y\n\nnone".toList)).lines, blankStatus l = false := by decide +kernel
  have hmem : l ∈ linesFrom (ascii "Status: 404\nX: y\n\nn".toList)
      (streamHead (ascii "Status: 404\nX: y\n\nnone".toList)).lines := hsplit ▸ by simp
  rw [hvalues l hmem] at hblank
  contradiction

/-- The same stream with its first line cut in two is not sent at all. -/
theorem not_sent_as_stream_cut :
    ({ io := [ascii "X: yz\n\nno".toList] } : ChunkIov).bytes =
      ({ io := [ascii "X: y".toList, ascii "z\n\nno".toList] } : ChunkIov).bytes ∧
    (fcgiSendResponseHeaders { iov := { io := [ascii "X: yz\n\nno".toList] } } []).isSome = true ∧
    fcgiSendResponseHeaders { iov := { io := [ascii "X: y".toList, ascii "z\n\nno".toList] } } [] = none ∧
    ¬ SentAsStream { iov := { io := [ascii "X: y".toList, ascii "z\n\nno".toList] } } [] := by
  have hnone : fcgiSendResponseHeaders { iov := { io := [ascii "X: y".toList, ascii "z\n\nno".toList] } } [] =
      none := by decide +kernel
  refine ⟨by decide +kernel, by decide +kernel, hnone, fun h => ?_⟩
  obtain ⟨iov, -, hsent⟩ := h.sent
  rw [hnone] at hsent
  contradiction

end Monkey.Fastcgi
