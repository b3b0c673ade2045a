import Monkey.Request.Segments

/-!
# Monkey.Request.Upload

A client posts data: a header block with a `Content-Length` field of value `n`, then
the data, cut into reads anywhere.  `mk_http_pending_request` takes the request for
complete exactly with its last byte of data when the header block is found where it
ends and the field where it stands:

* the end of the header block is looked for at the tail of the buffer first, and what
  is found is kept, so the read that brings it must not end in a blank line of the
  data (`CleanEnd`);
* the length is the number after the first `Content-Length:` anywhere in the buffer,
  or in one of the rows parsed so far, and its first byte is skipped as a blank, so
  the first one must be that of the field, with a blank behind it (`First`).
-/

namespace Monkey

/-! ## posted requests -/

/-- The header block of a POST or PUT request: it ends at its first blank line. -/
structure IsUpload (head : Bytes) : Prop where
  method : ascii "POST ".toList <+: head ∨ ascii "PUT ".toList <+: head
  ends : mkEndblock <:+ head
  only : ∀ q, mkEndblock <+: head.drop q → q + mkEndblock.length = head.length

/-! ## the line of a length -/

def IsBlank (c : UInt8) : Prop := c = 0x20 ∨ c = 0x09

instance (c : UInt8) : Decidable (IsBlank c) := inferInstanceAs (Decidable (_ ∨ _))

/-- The line of a content length: the name in any case and the digits, with blanks on both
sides of them. -/
structure LengthLine (n : Nat) where
  name : Bytes
  blanks : Bytes
  number : Bytes
  trail : Bytes
  isName : name.map toupper = rhContentLength.map toupper
  isBlank : (∀ c ∈ blanks, IsBlank c) ∧ ∀ c ∈ trail, IsBlank c
  isNumber : ∀ c ∈ number, isdigit c = true
  ne_nil : number ≠ []
  value : digits 0 number = n

def LengthLine.text {n : Nat} (l : LengthLine n) : Bytes := l.name ++ (l.blanks ++ (l.number ++ l.trail))

namespace LengthLine

variable {n : Nat}

theorem name_length (l : LengthLine n) : l.name.length = rhContentLength.length := by
  simpa using congrArg List.length l.isName

theorem isspace_of_isBlank {c : UInt8} (h : IsBlank c) : isspace c = true := by
  rcases h with rfl | rfl
  all_goals rfl

/-- A byte that is neither in the name nor a blank nor a digit is not in the line. -/
theorem notMem_text (l : LengthLine n) {c : UInt8} (hname : toupper c ∉ rhContentLength.map toupper)
    (hblank : ¬ IsBlank c) (hdigit : isdigit c = false) : c ∉ l.text := by
  intro hc
  simp only [text, List.mem_append] at hc
  rcases hc with hc | hc | hc | hc
  · exact hname (l.isName ▸ List.mem_map_of_mem hc)
  · exact hblank (l.isBlank.1 c hc)
  · exact absurd (l.isNumber c hc) (by rw [hdigit]; exact Bool.false_ne_true)
  · exact hblank (l.isBlank.2 c hc)

/-- The number is read behind the byte that is skipped, if that is a blank. -/
theorem strtol_eq (l : LengthLine n) (hn : n < 2 ^ 63) {t : Bytes} (ht : ∀ c ∈ t.head?, isdigit c = false) :
    strtol (l.blanks.tail ++ (l.number ++ t)) = n := by
  have hblanks : ∀ c ∈ l.blanks.tail, isspace c = true :=
    fun c hc => isspace_of_isBlank (l.isBlank.1 c (List.mem_of_mem_tail hc))
  rw [strtol_number hblanks l.isNumber l.ne_nil ht (by rw [l.value]; exact hn), l.value]

/-- What stands one byte behind the name. -/
theorem drop_name (l : LengthLine n) (hblank : l.blanks ≠ []) (rest : Bytes) :
    (l.text ++ rest).drop (rhContentLength.length + 1) =
      l.blanks.tail ++ (l.number ++ (l.trail ++ rest)) := by
  obtain ⟨c, blanks, hblanks⟩ := List.exists_cons_of_ne_nil hblank
  rw [text, ← List.drop_drop, ← l.name_length, List.append_assoc, List.drop_left, hblanks]
  simp

/-- No digit follows the number. -/
theorem head?_trail (l : LengthLine n) (rest : Bytes) (k : Nat) :
    ∀ c ∈ ((l.trail ++ (mkCrlf ++ rest)).take k).head?, isdigit c = false := by
  intro c hc
  have hhead : c ∈ (l.trail ++ (mkCrlf ++ rest)).head? := by
    cases k with
    | zero => exact absurd hc (Option.not_mem_none _)
    | succ k => rwa [List.head?_take, if_neg (Nat.succ_ne_zero k)] at hc
  cases htrail : l.trail with
  | nil =>
      rw [htrail] at hhead
      obtain rfl := Option.some.inj hhead
      decide
  | cons d trail =>
      rw [htrail] at hhead
      obtain rfl := Option.some.inj hhead
      have hd := l.isBlank.2 d (by rw [htrail]; exact List.mem_cons_self)
      rcases hd with rfl | rfl
      all_goals decide

end LengthLine

/-! ## the field -/

/-- A `Content-Length` field of value `n`: a row with the name in any case and a
colon, blanks and digits. -/
structure ContentLengthField (head : Bytes) (n : Nat) where
  before : Bytes
  name : Bytes
  blanks : Bytes
  number : Bytes
  after : Bytes
  eq : head = before ++ (mkCrlf ++ (name ++ (blanks ++ (number ++ (mkCrlf ++ after)))))
  isName : name.map toupper = rhContentLength.map toupper
  isBlank : ∀ c ∈ blanks, c = 0x20 ∨ c = 0x09
  isNumber : ∀ c ∈ number, isdigit c = true
  ne_nil : number ≠ []
  value : digits 0 number = n

namespace ContentLengthField

variable {head : Bytes} {n : Nat}

/-- Where the name of the field stands. -/
def pos (f : ContentLengthField head n) : Nat := f.before.length + mkCrlf.length

/-- The name of the field is the first in the block, and a blank follows it. -/
def First (f : ContentLengthField head n) : Prop :=
  strcasestr head rhContentLength = some f.pos ∧ f.blanks ≠ []

/-- The line of the field. -/
def line (f : ContentLengthField head n) : LengthLine n where
  name := f.name
  blanks := f.blanks
  number := f.number
  trail := []
  isName := f.isName
  isBlank := ⟨f.isBlank, by simp⟩
  isNumber := f.isNumber
  ne_nil := f.ne_nil
  value := f.value

theorem name_length (f : ContentLengthField head n) : f.name.length = rhContentLength.length :=
  f.line.name_length

/-- The block with what has arrived behind it. -/
theorem append_eq (f : ContentLengthField head n) (tail : Bytes) :
    head ++ tail = f.before ++
      (mkCrlf ++ (f.name ++ (f.blanks ++ (f.number ++ (mkCrlf ++ (f.after ++ tail)))))) := by
  simpa using congrArg (· ++ tail) f.eq

theorem drop_pos (f : ContentLengthField head n) (tail : Bytes) :
    (head ++ tail).drop f.pos =
      f.name ++ (f.blanks ++ (f.number ++ (mkCrlf ++ (f.after ++ tail)))) := by
  rw [f.append_eq, pos, ← List.drop_drop, List.drop_left, List.drop_left]

/-- The name is there. -/
theorem name_prefix (f : ContentLengthField head n) (tail : Bytes) :
    rhContentLength.map toupper <+: ((head ++ tail).drop f.pos).map toupper := by
  rw [f.drop_pos, List.map_append, f.isName]
  exact List.prefix_append _ _

/-- The row of the field starts after a line end. -/
theorem crlf_prefix (f : ContentLengthField head n) (tail : Bytes) :
    mkCrlf <+: (head ++ tail).drop f.before.length := by
  rw [f.append_eq, List.drop_left]
  exact List.prefix_append _ _

/-- The name does not stand earlier. -/
theorem First.least {f : ContentLengthField head n} (h : f.First) (tail : Bytes) {q : Nat}
    (hq : q < f.pos) : ¬ rhContentLength.map toupper <+: ((head ++ tail).drop q).map toupper := by
  intro hpre
  have hend := (findSub_sound h.1).length_le
  rw [List.length_drop, List.length_map, List.length_map] at hend
  apply findSub_least h.1 hq
  have hcstr : cstr head <+: head ++ tail :=
    (List.takeWhile_prefix _).trans (List.prefix_append _ _)
  rw [List.map_drop] at hpre
  refine List.prefix_of_prefix_length_le hpre ((hcstr.map toupper).drop q) ?_
  rw [List.length_drop, List.length_map, List.length_map]
  omega

/-- The string search finds the field whatever has arrived behind the block. -/
theorem First.strcasestr_append {f : ContentLengthField head n} (h : f.First) (tail : Bytes) :
    strcasestr (head ++ tail) rhContentLength = some f.pos := by
  have hgrow : cstr head <+: cstr (head ++ tail) := by
    unfold cstr
    rw [List.takeWhile_append]
    split
    · next hall =>
      rw [List.IsPrefix.eq_of_length (List.takeWhile_prefix _) hall]
      exact List.prefix_append _ _
    · exact List.prefix_rfl
  have hsound := findSub_sound h.1
  have hend := hsound.length_le
  rw [List.length_drop, List.length_map] at hend
  apply findSub_eq_some
  · exact hsound.trans ((hgrow.map toupper).drop f.pos)
  · have := (hgrow.map toupper).length_le
    have hpos : 0 < rhContentLength.length := by decide
    rw [List.length_map] at hend this
    omega
  · intro q hq hpre
    apply h.least tail hq
    rw [List.map_drop]
    exact hpre.trans (((List.takeWhile_prefix _).map toupper).drop q)

/-- The rows parsed so far hold the field, or none of that name: rows start at line
ends, so that of the field is not missed, and no earlier one has its name. -/
theorem First.mkRequestHeaderGet_toc {f : ContentLengthField head n} (h : f.First) (tail : Bytes)
    (len : Int) {rows off : Nat} {l : Option Nat} (hoff : off ≤ f.pos) (hrow : off + 1 ≠ f.pos) :
    let value := (mkRequestHeaderGet (mkRequestHeaderTocLoop len rows ((head ++ tail).drop off) off l)
      rhContentLength).1.data
    value = none ∨ value = some ((head ++ tail).drop (f.pos + rhContentLength.length + 1)) := by
  induction rows generalizing off l with
  | zero => exact .inl rfl
  | succ rows ih =>
    simp only
    rw [mkRequestHeaderTocLoop]
    split
    · cases hstr : strstr ((head ++ tail).drop off) mkCrlf with
      | none => exact .inl rfl
      | some c =>
        simp only [mkRequestHeaderGet]
        by_cases hat : off = f.pos
        · subst hat
          rw [if_pos ⟨trivial, (strncasecmp_iff_isPrefix (by decide)).mpr (f.name_prefix tail)⟩]
          refine .inr ?_
          rw [List.drop_drop]
          rfl
        · have hlt : off < f.pos := by omega
          rw [if_neg fun hmatch =>
            h.least tail hlt ((strncasecmp_iff_isPrefix (by decide)).mp hmatch.2)]
          have hpos : f.pos = f.before.length + 2 := rfl
          -- the line end in front of the field is found, or one before it
          have hle : c ≤ f.before.length - off := by
            refine strstr_le hstr ?_
            rw [List.drop_drop, show off + (f.before.length - off) = f.before.length by omega]
            exact f.crlf_prefix tail
          have hfound : mkCrlf <+: (head ++ tail).drop (off + c) := by
            rw [← List.drop_drop]
            exact isPrefix_drop_of_strstr hstr
          have hnext : off + c + 2 + 1 ≠ f.pos := by
            intro hclash
            have hline := (crlf_bytes (f.crlf_prefix tail)).1
            rw [show f.before.length = off + c + 1 by omega, (crlf_bytes hfound).2] at hline
            contradiction
          rw [List.drop_drop, show off + (c + 2) = off + c + 2 by omega]
          exact ih (by omega) hnext
    · exact .inl rfl

/-- The number behind the name, the first byte skipped. -/
theorem First.drop_value {f : ContentLengthField head n} (h : f.First) (tail : Bytes) :
    (head ++ tail).drop (f.pos + rhContentLength.length + 1) =
      f.blanks.tail ++ (f.number ++ (mkCrlf ++ (f.after ++ tail))) := by
  obtain ⟨c, blanks, hblanks⟩ := List.exists_cons_of_ne_nil h.2
  rw [Nat.add_assoc, ← List.drop_drop, f.drop_pos, ← f.name_length, ← List.drop_drop,
    List.drop_left, hblanks]
  rfl

/-- The row of the field, up to its line end. -/
def row (f : ContentLengthField head n) : Bytes := f.name ++ (f.blanks ++ f.number)

theorem line_text (f : ContentLengthField head n) : f.line.text = f.row :=
  congrArg (fun number => f.name ++ (f.blanks ++ number)) (List.append_nil f.number)

/-- The line end found from the name on is that of the row. -/
theorem strstr_row (f : ContentLengthField head n) (tail : Bytes) :
    strstr ((head ++ tail).drop f.pos) mkCrlf = some f.row.length := by
  have hdrop : (head ++ tail).drop f.pos = f.row ++ (mkCrlf ++ (f.after ++ tail)) := by
    rw [f.drop_pos, row]
    simp only [List.append_assoc]
  have hcr : ¬ mkCrlf <:+: f.line.text := fun hin =>
    f.line.notMem_text (by decide) (by decide) rfl (hin.subset List.mem_cons_self)
  rw [hdrop, ← f.line_text]
  exact strstr_crlf_append hcr (f.line.notMem_text (by decide) (by decide) rfl) _

/-- **The length is read right**, whatever part of the data has arrived and whatever
part of the buffer is parsed into rows. -/
theorem First.mkMethodValidateContentLength {f : ContentLengthField head n} (h : f.First)
    (hn : n < 2 ^ 63) (tail : Bytes) (len : Int) :
    mkMethodValidateContentLength (head ++ tail) len = n := by
  have hpos : f.pos = f.before.length + 2 := rfl
  have htoc := @First.mkRequestHeaderGet_toc head n f h tail len mkHeadersTocLen 0 none
    (Nat.zero_le _) (by omega)
  unfold Monkey.mkMethodValidateContentLength mkRequestHeaderTocParse
  simp only [List.drop_zero] at htoc
  rcases htoc with htoc | htoc
  · -- no row yet: the string search, and a copy that goes well past the number
    have hrow : f.row.length = rhContentLength.length + (f.blanks.length + f.number.length) := by
      rw [row, List.length_append, List.length_append, f.name_length]
    simp only [htoc, mkStringSearchI, h.strcasestr_append tail, position, Option.elim_some,
      Int.ofNat_eq_natCast, Int.toNat_natCast, mkStringSearch, f.strstr_row tail]
    rw [if_neg (by omega), if_neg (by rw [hrow]; have : 0 < rhContentLength.length := by decide
                                      omega)]
    rw [mkStringCopySubstr, if_neg (by omega), Option.getD_some, h.drop_value]
    have htail := List.length_tail (l := f.blanks)
    rw [Int.toNat_zero, List.drop_zero, List.take_append, List.take_of_length_le (by omega),
      List.take_append, List.take_of_length_le (l := f.number) (by omega)]
    apply f.line.strtol_eq hn
    intro c hc
    rw [List.head?_take] at hc
    split at hc
    · contradiction
    · obtain rfl : 0x0d = c := Option.some.inj hc
      rfl
  · simp only [htoc]
    rw [h.drop_value]
    apply f.line.strtol_eq hn
    intro c hc
    obtain rfl : 0x0d = c := Option.some.inj hc
    rfl

end ContentLengthField

/-! ## the reads -/

/-- A posted request on its way: the session, the bytes not yet read, and what
`mk_http_pending_request` has returned last. -/
structure Upload where
  cs : ClientSession
  stream : Bytes
  pending : Int

/-- A read of `count` bytes and the check of `mk_conn_read` after it. -/
def Upload.read (cfg : Config) (s : Upload) (count : Nat) : Upload :=
  match mkHttpPendingRequest cfg { s.cs with body := s.cs.body ++ s.stream.take count } with
  | (pending, cs) => ⟨cs, s.stream.drop count, pending⟩

def Upload.Step (cfg : Config) (s : Upload) (count : Nat) (s' : Upload) : Prop :=
  s' = s.read cfg count

/-- The size of the buffer does not matter for the check. -/
theorem mkHttpPendingRequest_size (cfg : Config) (cs : ClientSession) (size : Nat) (fixed : Bool) :
    (mkHttpPendingRequest cfg { cs with bodySize := size, bodyFixed := fixed }).1 =
      (mkHttpPendingRequest cfg cs).1 := by
  unfold mkHttpPendingRequest pendingData pendingPosEnd ClientSession.bodyLength
  grind

/-- `mk_handler_read` appends the bytes it reads, and the check after it is the one
here. -/
theorem Upload.read_of_mkHandlerRead {cfg : Config} {ok : Bool} {s : Upload} {ret : Int}
    {cs : ClientSession} (h : mkHandlerRead cfg ok (.data s.stream) s.cs = .done ret cs) :
    (mkHttpPendingRequest cfg cs).1 = (s.read cfg ret.toNat).pending := by
  by_cases hfull : s.cs.Full cfg ok
  · obtain ⟨status, hgrow⟩ := mkHandlerReadGrow_full hfull
    rw [mkHandlerRead, hgrow] at h
    contradiction
  · obtain ⟨fixed, hgrow⟩ := mkHandlerReadGrow_ok hfull
    rw [mkHandlerRead, hgrow] at h
    simp only at h
    split at h
    · contradiction
    · next b bs hbytes =>
      simp only [HandlerRead.done.injEq] at h
      obtain ⟨rfl, rfl⟩ := h
      have hchunk : b :: bs = s.stream.take (bs.length + 1) :=
        List.prefix_iff_eq_take.mp (hbytes ▸ List.take_prefix _ _)
      rw [show ((bs.length : Int) + 1).toNat = bs.length + 1 by omega, Upload.read, ← hchunk]
      exact mkHttpPendingRequest_size cfg { s.cs with body := s.cs.body ++ b :: bs } _ fixed

/-- A session at the start of a round, and a client that sends `stream`. -/
def Upload.init (cs : ClientSession) (stream : Bytes) : Upload :=
  ⟨{ cs with body := [], bodyPosEnd := -1, firstMethod := .unknown }, stream, -1⟩

/-! ## what a read keeps -/

/-- A check waits for a blank line, or records its position and the method. -/
theorem mkHttpPendingRequest_spec (cfg : Config) (cs : ClientSession) :
    (¬ (mkEndblock.length ≤ cs.bodyLength ∧ 0 ≤ pendingPosEnd cs) ∧
      mkHttpPendingRequest cfg cs = (-1, cs)) ∨
    ((mkEndblock.length ≤ cs.bodyLength ∧ 0 ≤ pendingPosEnd cs) ∧
      ∃ ret status, mkHttpPendingRequest cfg cs = (ret, { cs with
        bodyPosEnd := pendingPosEnd cs,
        firstMethod := if cs.firstMethod = .unknown then mkHttpMethodGet cs.body
          else cs.firstMethod,
        status := status })) := by
  unfold mkHttpPendingRequest
  generalize (if cs.firstMethod = .unknown then mkHttpMethodGet cs.body else cs.firstMethod) = method
  split
  · next hlen =>
      simp only
      split
      · next hneg => exact .inl ⟨fun h => absurd h.2 (not_le.mpr hneg), rfl⟩
      · next hpos =>
          refine .inr ⟨⟨hlen, not_lt.mp hpos⟩, ?_⟩
          split
          · obtain ⟨ret, status, hdata⟩ := pendingData_cases cfg
              { cs with bodyPosEnd := pendingPosEnd cs, firstMethod := method }
            exact ⟨ret, status, hdata⟩
          · exact ⟨0, _, rfl⟩
  · next hlen => exact .inl ⟨fun h => hlen h.1, rfl⟩

/-- Reads leave the rest of the session as it is. -/
structure RoundKept (cs : ClientSession) (s : Upload) : Prop where
  list : s.cs.requestList = cs.requestList
  counter : s.cs.counterConnections = cs.counterConnections

theorem RoundKept.step {cfg : Config} {cs : ClientSession} {s s' : Upload} {count : Nat}
    (h : RoundKept cs s) (hstep : s.Step cfg count s') : RoundKept cs s' := by
  subst hstep
  unfold Upload.read
  rcases mkHttpPendingRequest_spec cfg { s.cs with body := s.cs.body ++ s.stream.take count } with
    ⟨-, hwait⟩ | ⟨-, ret, status, hfound⟩
  · rw [hwait]
    exact ⟨h.list, h.counter⟩
  · rw [hfound]
    exact ⟨h.list, h.counter⟩

theorem Upload.read_body (cfg : Config) (s : Upload) (count : Nat) :
    (s.read cfg count).cs.body = s.cs.body ++ s.stream.take count := by
  unfold Upload.read
  rcases mkHttpPendingRequest_spec cfg { s.cs with body := s.cs.body ++ s.stream.take count } with
    ⟨-, hwait⟩ | ⟨-, ret, status, hfound⟩
  · rw [hwait]
  · rw [hfound]

/-- The position a read records. -/
theorem Upload.read_bodyPosEnd (cfg : Config) (s : Upload) (count : Nat) :
    (s.read cfg count).cs.bodyPosEnd =
      if mkEndblock.length ≤ (s.cs.body ++ s.stream.take count).length ∧
          0 ≤ pendingPosEnd { s.cs with body := s.cs.body ++ s.stream.take count } then
        pendingPosEnd { s.cs with body := s.cs.body ++ s.stream.take count }
      else s.cs.bodyPosEnd := by
  unfold Upload.read
  rcases mkHttpPendingRequest_spec cfg { s.cs with body := s.cs.body ++ s.stream.take count } with
    ⟨hnot, hwait⟩ | ⟨hpos, ret, status, hfound⟩
  · rw [hwait]
    exact (if_neg hnot).symm
  · rw [hfound]
    exact (if_pos hpos).symm

/-! ## posted data -/

/-- The read that brings the end of the header block stops there, or it does not stop
at another blank line and the block has no NUL. -/
def CleanEnd (head : Bytes) (s : Upload) (count : Nat) : Prop :=
  s.cs.bodyPosEnd < 0 → head.length < (s.cs.body ++ s.stream.take count).length →
    ¬ mkEndblock <:+ s.cs.body ++ s.stream.take count ∧ 0 ∉ head

instance (head : Bytes) (s : Upload) (count : Nat) : Decidable (CleanEnd head s count) :=
  inferInstanceAs (Decidable (_ → _ → _))

namespace IsUpload

variable {head : Bytes}

theorem isFrame (h : IsUpload head) : IsFrame mkEndblock head := by
  refine ⟨h.ends, h.only, ?_⟩
  rcases h.method with ⟨t, rfl⟩ | ⟨t, rfl⟩
  · exact ⟨0x50, ascii "OST ".toList ++ t, rfl, by decide⟩
  · exact ⟨0x50, ascii "UT ".toList ++ t, rfl, by decide⟩

theorem mkHttpMethodGet_append (h : IsUpload head) (tail : Bytes) :
    mkHttpMethodGet (head ++ tail) = .post ∨ mkHttpMethodGet (head ++ tail) = .put := by
  rcases h.method with ⟨t, rfl⟩ | ⟨t, rfl⟩
  · left
    rfl
  · right
    rfl

/-- The block is longer than its blank line. -/
theorem length_gt (h : IsUpload head) : mkEndblock.length < head.length := by
  rcases Nat.lt_or_eq_of_le h.ends.length_le with hlt | heq
  · exact hlt
  · obtain ⟨c, s, hcons, hc⟩ := h.isFrame.starts
    have hhead : head = mkEndblock := (h.ends.eq_of_length heq).symm
    exact absurd (by rw [← hhead, hcons]; exact List.mem_cons_self) hc

/-- The end of the block is found where it is. -/
theorem pendingPosEnd_append (h : IsUpload head) {cs : ClientSession} {tail : Bytes}
    (hbody : cs.body = head ++ tail) (hpos : cs.bodyPosEnd = -1)
    (hclean : tail ≠ [] → ¬ mkEndblock <:+ cs.body ∧ 0 ∉ head) :
    pendingPosEnd cs = (head.length : Int) - mkEndblock.length := by
  have hlen : cs.bodyLength = head.length + tail.length := by
    rw [ClientSession.bodyLength, hbody, List.length_append]
  have hgt := h.length_gt
  rw [pendingPosEnd_eq hpos (by omega)]
  by_cases htail : tail = []
  · rw [htail, List.append_nil] at hbody
    rw [if_pos (by rw [hbody]; exact h.ends), hlen, htail]
    rfl
  · obtain ⟨hend, h0⟩ := hclean htail
    rw [if_neg hend, mkStringSearch, strstr, hbody, cstr_append h0, h.isFrame.findSub_append]
    simp only [position, Option.elim_some, Int.ofNat_eq_natCast]
    omega

end IsUpload

section

variable {cfg : Config} {head data : Bytes} {n : Nat}

/-- Data is complete with its last byte. -/
theorem pendingData_upload (h : IsUpload head) {f : ContentLengthField head n} (hf : f.First)
    (hpos : 0 < n) (hn : (n : Int) < cfg.maxRequestSize) (hcfg : cfg.maxRequestSize < 2 ^ 31)
    {cs : ClientSession} {tail : Bytes} (hbody : cs.body = head ++ tail)
    (hend : cs.bodyPosEnd = (head.length : Int) - mkEndblock.length) :
    (pendingData cfg cs).1 = if tail.length < n then -1 else 0 := by
  have hlen : cs.bodyLength = head.length + tail.length := by
    rw [ClientSession.bodyLength, hbody, List.length_append]
  have hgt := h.length_gt
  have hvalue := hf.mkMethodValidateContentLength (by omega) tail
  have hint : toInt (n : Int) = n := toInt_eq_self (by omega) (by omega)
  unfold pendingData
  rw [if_pos (by omega)]
  simp only [hbody, hvalue, hint]
  rw [if_neg (by omega)]
  by_cases htail : tail.length = 0
  · rw [if_pos (by omega), if_neg (by omega), if_pos (by omega)]
  · rw [if_neg (by omega)]
    by_cases hall : tail.length < n
    · rw [if_pos (by omega), if_pos hall]
    · rw [if_neg (by omega), if_neg hall]

/-- The stream is read in order, the end of the header block is known as soon as it
has arrived, and the last check was right. -/
structure Receives (head data : Bytes) (n : Nat) (s : Upload) : Prop where
  stream : s.cs.body ++ s.stream = head ++ data
  waiting : s.cs.bodyLength < head.length → s.cs.bodyPosEnd = -1 ∧ s.cs.firstMethod = .unknown
  found : head.length ≤ s.cs.bodyLength →
    s.cs.bodyPosEnd = (head.length : Int) - mkEndblock.length ∧
      (s.cs.firstMethod = .post ∨ s.cs.firstMethod = .put)
  pending : s.pending = if s.cs.bodyLength < head.length + n then -1 else 0

/-- A check inside the header block. -/
theorem mkHttpPendingRequest_head (h : IsUpload head) {cs : ClientSession}
    (hbody : cs.body <+: head ++ data) (hlen : cs.bodyLength < head.length)
    (hpos : cs.bodyPosEnd = -1) : mkHttpPendingRequest cfg cs = (-1, cs) := by
  have hno : ¬ mkEndblock <:+: cs.body := by
    intro hin
    have := (h.isFrame.whole_of_term hbody hin).length_le
    unfold ClientSession.bodyLength at hlen
    omega
  refine mkHttpPendingRequest_wait hpos (fun hsuf => hno hsuf.isInfix) ?_
  cases hstr : strstr cs.body mkEndblock with
  | none => rfl
  | some p =>
    exact absurd ((isPrefix_drop_of_strstr hstr).isInfix.trans (List.drop_suffix p _).isInfix) hno

/-- A check once the header block is there. -/
theorem mkHttpPendingRequest_upload (h : IsUpload head) {f : ContentLengthField head n}
    (hf : f.First) (hpos : 0 < n) (hn : (n : Int) < cfg.maxRequestSize)
    (hcfg : cfg.maxRequestSize < 2 ^ 31) {cs : ClientSession} {tail : Bytes}
    (hbody : cs.body = head ++ tail)
    (hend : pendingPosEnd cs = (head.length : Int) - mkEndblock.length)
    (hmethod : cs.firstMethod = .unknown ∨ cs.firstMethod = .post ∨ cs.firstMethod = .put) :
    ∃ method status, (method = .post ∨ method = .put) ∧
      mkHttpPendingRequest cfg cs = (if tail.length < n then -1 else 0, { cs with
        bodyPosEnd := (head.length : Int) - mkEndblock.length,
        firstMethod := method, status := status }) := by
  have hgt := h.length_gt
  have hlen : mkEndblock.length ≤ cs.bodyLength := by
    rw [ClientSession.bodyLength, hbody, List.length_append]
    omega
  have hfirst : (if cs.firstMethod = .unknown then mkHttpMethodGet cs.body else cs.firstMethod) =
      .post ∨ (if cs.firstMethod = .unknown then mkHttpMethodGet cs.body else cs.firstMethod) =
      .put := by
    split
    · rw [hbody]
      exact h.mkHttpMethodGet_append tail
    · next hknown => exact hmethod.resolve_left hknown
  unfold mkHttpPendingRequest
  rw [if_pos hlen]
  simp only [hend]
  generalize (if cs.firstMethod = .unknown then mkHttpMethodGet cs.body else cs.firstMethod) = method
    at hfirst ⊢
  rw [if_neg (by omega), if_pos hfirst]
  have hret : (pendingData cfg { cs with
      bodyPosEnd := (head.length : Int) - mkEndblock.length, firstMethod := method }).1 =
      if tail.length < n then -1 else 0 :=
    pendingData_upload h hf hpos hn hcfg hbody rfl
  obtain ⟨ret, status, hdata⟩ := pendingData_cases cfg
    { cs with bodyPosEnd := (head.length : Int) - mkEndblock.length, firstMethod := method }
  rw [hdata] at hret ⊢
  exact ⟨method, status, hfirst, by rw [← hret]⟩

theorem Receives.step (h : IsUpload head) {f : ContentLengthField head n} (hf : f.First)
    (hpos : 0 < n) (hn : (n : Int) < cfg.maxRequestSize) (hcfg : cfg.maxRequestSize < 2 ^ 31)
    {s s' : Upload} {count : Nat} (hs : Receives head data n s) (hclean : CleanEnd head s count)
    (hstep : s.Step cfg count s') : Receives head data n s' := by
  subst hstep
  have hgt := h.length_gt
  have hstream : (s.cs.body ++ s.stream.take count) ++ s.stream.drop count = head ++ data := by
    rw [List.append_assoc, List.take_append_drop, hs.stream]
  unfold Upload.read
  unfold CleanEnd at hclean
  generalize hgot : s.cs.body ++ s.stream.take count = got at hstream hclean ⊢
  have hmore : s.cs.bodyLength ≤ got.length := by
    rw [← hgot, List.length_append]
    exact Nat.le_add_right _ _
  have hpre : got <+: head ++ data := ⟨_, hstream⟩
  by_cases hlen : got.length < head.length
  · -- still inside the header block
    obtain ⟨hwait, hmethod⟩ := hs.waiting (by omega)
    have hsame : mkHttpPendingRequest cfg { s.cs with body := got } = (-1, { s.cs with body := got }) :=
      mkHttpPendingRequest_head h hpre hlen hwait
    rw [hsame]
    refine ⟨hstream, fun _ => ⟨hwait, hmethod⟩, fun hge => ?_, ?_⟩
    · exact absurd hlen (Nat.not_lt.mpr hge)
    · exact (if_pos (show got.length < head.length + n by omega)).symm
  · obtain ⟨tail, htail⟩ := List.prefix_of_prefix_length_le (List.prefix_append head data) hpre
      (Nat.not_lt.mp hlen)
    have hgotlen : got.length = head.length + tail.length := by rw [← htail, List.length_append]
    have hend : pendingPosEnd { s.cs with body := got } =
        (head.length : Int) - mkEndblock.length := by
      by_cases hbefore : s.cs.bodyLength < head.length
      · obtain ⟨hwait, -⟩ := hs.waiting hbefore
        refine h.pendingPosEnd_append htail.symm hwait fun hne => hclean (by omega) ?_
        have := List.length_pos_iff.mpr hne
        omega
      · obtain ⟨hfound, -⟩ := hs.found (Nat.not_lt.mp hbefore)
        rw [pendingPosEnd, if_neg (by simp only [hfound]; omega), hfound]
    have hmethod : s.cs.firstMethod = .unknown ∨ s.cs.firstMethod = .post ∨
        s.cs.firstMethod = .put := by
      by_cases hbefore : s.cs.bodyLength < head.length
      · exact .inl (hs.waiting hbefore).2
      · exact .inr (hs.found (Nat.not_lt.mp hbefore)).2
    obtain ⟨method, status, hpost, heq⟩ := @mkHttpPendingRequest_upload cfg head n h f hf hpos hn hcfg
      { s.cs with body := got } tail htail.symm hend hmethod
    rw [heq]
    refine ⟨hstream, fun hlt => absurd hlt hlen, fun _ => ⟨rfl, hpost⟩, ?_⟩
    simp only [ClientSession.bodyLength, hgotlen]
    by_cases hall : tail.length < n
    · rw [if_pos hall, if_pos (by omega)]
    · rw [if_neg hall, if_neg (by omega)]

/-- **Posted data**: in every run whose reads are clean, the request is pending up to
its last byte of data and complete from there on. -/
theorem upload_pending (h : IsUpload head) (f : ContentLengthField head n) (hf : f.First)
    (hpos : 0 < n) (hn : (n : Int) < cfg.maxRequestSize) (hcfg : cfg.maxRequestSize < 2 ^ 31)
    {cs : ClientSession} {counts : List Nat} {s : Upload}
    (hrun : Run (Guarded (CleanEnd head) (Upload.Step cfg)) (Upload.init cs (head ++ data)) counts s) :
    s.pending = if s.cs.bodyLength < head.length + n then -1 else 0 := by
  have hgt := h.length_gt
  have hinit : Receives head data n (Upload.init cs (head ++ data)) := by
    refine ⟨rfl, fun _ => ⟨rfl, rfl⟩, fun hge => ?_, ?_⟩
    · exact absurd hge (by simp only [Upload.init, ClientSession.bodyLength, List.length_nil]; omega)
    · rw [if_pos (by simp only [Upload.init, ClientSession.bodyLength, List.length_nil]; omega)]
      rfl
  exact (hrun.guarded_invariant (fun _ _ _ hs hg hstep => hs.step h hf hpos hn hcfg hg hstep)
    hinit).pending

end

/-- Eight bytes of posted data. -/
def uploadHead : Bytes := ascii "POST /a HTTP/1.1\r\nContent-Length: 8\r\n\r\n".toList

theorem isUpload_uploadHead : IsUpload uploadHead :=
  ⟨.inl (by decide), by decide, fun _ hq => endblock_only (by decide) hq⟩

def uploadField : ContentLengthField uploadHead 8 where
  before := ascii "POST /a HTTP/1.1".toList
  name := ascii "Content-Length:".toList
  blanks := [0x20]
  number := ascii "8".toList
  after := mkCrlf
  eq := by decide
  isName := by decide
  isBlank := fun _ hc => .inl (List.mem_singleton.mp hc)
  isNumber := List.all_eq_true.mp (by decide)
  ne_nil := by decide
  value := by decide

/-- The data comes in two reads. -/
theorem upload_pending_two_reads : ∃ s,
    Run (Guarded (CleanEnd uploadHead) (Upload.Step sampleConfig))
      (Upload.init sampleSession (uploadHead ++ ascii "ab\r\n\r\ncd".toList))
      [uploadHead.length + 2, 6] s ∧ s.pending = 0 := by
  have hrun : ∃ s, Run (Guarded (CleanEnd uploadHead) (Upload.Step sampleConfig))
      (Upload.init sampleSession (uploadHead ++ ascii "ab\r\n\r\ncd".toList))
      [uploadHead.length + 2, 6] s ∧ s.cs.bodyLength = uploadHead.length + 8 :=
    ⟨_, .cons ⟨by decide, rfl⟩ (.cons ⟨by decide, rfl⟩ (.nil _)), by decide⟩
  obtain ⟨s, hrun, hlen⟩ := hrun
  refine ⟨s, hrun, ?_⟩
  rw [upload_pending isUpload_uploadHead uploadField ⟨by decide, by decide⟩ (by decide) (by decide)
    (by decide) hrun, if_neg (by omega)]

/-- A read that stops at a blank line of the data: the request stays pending when all
of it has arrived. -/
theorem blank_line_in_data_pending :
    ¬ ∀ (cfg : Config) (head data : Bytes) (n : Nat) (_ : ContentLengthField head n)
      (cs : ClientSession) (counts : List Nat) (s : Upload), IsUpload head → 0 < n →
      (n : Int) < cfg.maxRequestSize → cfg.maxRequestSize < 2 ^ 31 →
      Run (Upload.Step cfg) (Upload.init cs (head ++ data)) counts s →
      s.pending = if s.cs.bodyLength < head.length + n then -1 else 0 := by
  intro h
  have hend := h sampleConfig uploadHead (ascii "ab\r\n\r\ncd".toList) 8 uploadField sampleSession
    [uploadHead.length + 6, 2] _ isUpload_uploadHead (by decide) (by decide) (by decide)
    (.cons rfl (.cons rfl (.nil _)))
  exact absurd hend (by decide)

end Monkey
