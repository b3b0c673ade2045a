import Monkey.Lib.Run
import Monkey.Palm.Relay

/-!
# Monkey.Palm.Delivery

What a client gets of the response of a Palm server: a header with the server's headers
behind it, and the body.

The bytes are right as long as the client takes everything it is offered, the body comes
after a `Status` line and not with it, and everything is written before the server
closes.
-/

namespace Monkey.Palm

/-! ## the response of a server -/

/-- Header lines, an empty one, and the body. -/
structure PalmOutput where
  lines : List Bytes
  body : Bytes
  lines_ne_nil : lines ≠ []
  line_ne_nil : [] ∉ lines
  no_lf : ∀ l ∈ lines, 0x0a ∉ l

/-- Some lines and an empty one. -/
def headText (lines : List Bytes) : Bytes := lines.flatMap (· ++ crlf) ++ crlf

def isStatus (l : Bytes) : Bool := statusField.isPrefixOf l

/-- The three characters behind `Status: ` as a number. -/
def lineCode (l : Bytes) : Int := toInt (strtol (((l ++ crlf).drop 8).take 3))

namespace PalmOutput

variable (o : PalmOutput)

/-- Everything the server sends. -/
def text : Bytes := headText o.lines ++ o.body

/-- The headers without the `Status` line. -/
def headers : Bytes := headText (o.lines.filter (!isStatus ·))

/-- The status of the response: that of the line, or that of the request, 200 if it has
none. -/
def code (sr : SessionRequest) : Int :=
  match o.lines.find? isStatus with
  | some l => lineCode l
  | none => if sr.headers.status = 0 then mkHttpOk else sr.headers.status

/-- The response is in chunks: on HTTP/1.1, but for a redirection. -/
def chunked (sr : SessionRequest) : Bool :=
  !sr.protocol.isOld && (o.code sr < mkRedirMultiple || o.code sr > mkRedirUseProxy)

/-- The header of the response to `sr`. -/
def head (ctx : Ctx) (sr : SessionRequest) : HeaderBlock :=
  let te := if o.chunked sr then 0 else sr.headers.transferEncoding
  headerBlock ctx { sr with headers := { sr.headers with status := o.code sr, transferEncoding := te } }

end PalmOutput

/-- The request before its first event. -/
def start (o : PalmOutput) (sr : SessionRequest) : Relay := { pr := mkPalmRequestCreate sr, upstream := o.text }

/-- **What the client is to get**: at any time nothing, or the header, the headers and a
beginning of the body; all of it in the end. -/
structure Delivers (ctx : Ctx) (o : PalmOutput) (sr : SessionRequest) (x : Relay) : Prop where
  running : x.aborted = false
  beginning : x.ended = false → x.sent = [] ∨
    ∃ enc body, received x.sent = some (o.head ctx sr, o.headers ++ enc) ∧ Framed (o.chunked sr) enc body ∧
      body <+: o.body
  whole : x.ended = true →
    ∃ enc, received x.sent = some (o.head ctx sr, o.headers ++ enc) ∧ Encodes (o.chunked sr) enc o.body

/-! ## the events that are right -/

/-- The socket takes everything of a write of `len` bytes. -/
def Take.Whole (len : Nat) : Take → Prop
  | .all => True
  | .upTo n => len ≤ n
  | .fail => False

instance (len : Nat) : (t : Take) → Decidable (t.Whole len)
  | .all => inferInstanceAs (Decidable True)
  | .upTo n => inferInstanceAs (Decidable (len ≤ n))
  | .fail => inferInstanceAs (Decidable False)

/-- The socket takes everything of the next writes, of these lengths. -/
def TakesWhole : List Take → List Nat → Prop
  | t :: ts, len :: lens => t.Whole len ∧ TakesWhole ts lens
  | _, _ => True

instance TakesWhole.decidable : (ts : List Take) → (lens : List Nat) → Decidable (TakesWhole ts lens)
  | [], _ => inferInstanceAs (Decidable True)
  | _ :: _, [] => inferInstanceAs (Decidable True)
  | t :: ts, len :: lens =>
      have := TakesWhole.decidable ts lens
      inferInstanceAs (Decidable (t.Whole len ∧ TakesWhole ts lens))

/-- The bytes of the body in the buffer. -/
def Relay.unsent (x : Relay) : Bytes := (x.pr.inBuffer.take x.pr.inLen).drop x.pr.inOffset

/-- The lengths of the writes of a piece of the body. -/
def pieceLengths (chunked : Bool) (len : Nat) : List Nat :=
  if chunked then [(printfX len ++ crlf).length, len, 2] else [len]

/-- All headers are in the first `n` bytes of the response, and have no NUL. -/
def HeadersIn (o : PalmOutput) (n : Nat) : Prop := (headText o.lines).length ≤ n ∧ 0 ∉ headText o.lines

instance (o : PalmOutput) (n : Nat) : Decidable (HeadersIn o n) := inferInstanceAs (Decidable (_ ∧ _))

/-- The headers can be sent when the first `n` bytes are there: a `Status` line is the
first one, and no byte of the body is there if there is one; the status is known, and
the client takes the header and the headers. -/
def HeadRight (o : PalmOutput) (sr : SessionRequest) (n : Nat) (takes : List Take) : Prop :=
  (∀ l ∈ o.lines.tail, isStatus l = false) ∧
    (o.lines.any isStatus = true → n = (headText o.lines).length) ∧
    o.code sr ∈ statusResponse ∧ (∀ t ∈ takes.head?, t = .all) ∧ TakesWhole takes.tail [o.headers.length]

instance (o : PalmOutput) (sr : SessionRequest) (n : Nat) (takes : List Take) :
    Decidable (HeadRight o sr n takes) := inferInstanceAs (Decidable (_ ∧ _ ∧ _ ∧ _ ∧ _))

/-- **The condition on an event.** -/
def EventRight (o : PalmOutput) (sr : SessionRequest) (x : Relay) : Event → Prop
  | .read n takes =>
      if n = 0 then
        x.upstream = [] ∧ x.pr.headersSent = true ∧ x.unsent = [] ∧ (o.chunked sr = true → TakesWhole takes [5])
      else if x.pr.headersSent = true then x.pr.inOffset ≤ x.pr.inLen
      else HeadersIn o (x.pr.inLen + n) → HeadRight o sr (x.pr.inLen + n) takes
  | .write takes =>
      x.pr.headersSent = true → x.unsent ≠ [] → TakesWhole takes (pieceLengths (o.chunked sr) x.unsent.length)

instance (o : PalmOutput) (sr : SessionRequest) (x : Relay) : (e : Event) → Decidable (EventRight o sr x e)
  | .read n takes =>
      if h : n = 0 then
        decidable_of_iff (x.upstream = [] ∧ x.pr.headersSent = true ∧ x.unsent = [] ∧
          (o.chunked sr = true → TakesWhole takes [5])) (by simp [EventRight, h])
      else if hsent : x.pr.headersSent = true then
        decidable_of_iff (x.pr.inOffset ≤ x.pr.inLen) (by simp [EventRight, h, hsent])
      else
        decidable_of_iff (HeadersIn o (x.pr.inLen + n) → HeadRight o sr (x.pr.inLen + n) takes)
          (by simp [EventRight, h, hsent])
  | .write _ => inferInstanceAs (Decidable (_ → _ → _))

def Step (ctx : Ctx) (x : Relay) (e : Event) (x' : Relay) : Prop := x.step ctx e = some x'

/-! ## writes that are taken -/

@[simp] theorem takesWhole_nil (lens : List Nat) : TakesWhole [] lens := by cases lens <;> trivial

theorem Take.Whole.ret {len : Nat} {t : Take} (h : t.Whole len) : t.ret len = len := by
  cases t with
  | all => rfl
  | upTo n => exact min_eq_right (Int.ofNat_le.mpr h)
  | fail => exact h.elim

theorem Take.Whole.taken {bs : Bytes} {t : Take} (h : t.Whole bs.length) : t.taken bs = bs := by
  cases t with
  | all => rfl
  | upTo n => exact List.take_of_length_le h
  | fail => exact h.elim

/-- A write that is taken whole. -/
theorem send_whole {x : Relay} {bs : Bytes} {lens : List Nat} (h : TakesWhole x.takes (bs.length :: lens)) :
    ∃ takes, x.send bs = (↑bs.length, { x with takes := takes, sent := x.sent ++ [.bytes bs] }) ∧
      TakesWhole takes lens := by
  unfold Relay.send
  split
  · next hnil => exact ⟨[], by rw [← hnil], takesWhole_nil lens⟩
  · next t ts htakes =>
      rw [htakes] at h
      exact ⟨ts, by rw [h.1.ret, h.1.taken], h.2⟩

/-! ## where the headers end -/

theorem getElem?_of_prefix_drop {pat s : Bytes} {p : Nat} (h : pat <+: s.drop p) {i : Nat} (hi : i < pat.length) :
    s[p + i]? = pat[i]? := by
  obtain ⟨t, ht⟩ := h
  rw [← List.getElem?_drop, ← ht, List.getElem?_append_left hi]

theorem headText_cons (l : Bytes) (ls : List Bytes) : headText (l :: ls) = l ++ (crlf ++ headText ls) := by
  simp [headText]

/-- A line feed is at the end of the line, or behind it. -/
theorem lf_index {l rest : Bytes} (hl : 0x0a ∉ l) {q : Nat} (h : (l ++ (crlf ++ rest))[q]? = some 0x0a) :
    q = l.length + 1 ∨ l.length + 2 ≤ q := by
  rcases Nat.lt_trichotomy q l.length with hlt | heq | hgt
  · rw [List.getElem?_append_left hlt] at h
    exact absurd (List.mem_of_getElem? h) hl
  · rw [heq, List.getElem?_append_right le_rfl, Nat.sub_self] at h
    exact absurd (Option.some.inj h) (by decide)
  · omega

/-- Headers do not start with a line feed. -/
theorem headText_first {lines : List Bytes} (hne : [] ∉ lines) (hlf : ∀ l ∈ lines, 0x0a ∉ l) :
    (headText lines)[0]? ≠ some 0x0a := by
  cases lines with
  | nil => exact fun h => absurd (Option.some.inj h) (by decide)
  | cons l ls =>
      obtain ⟨c, t, rfl⟩ := List.exists_cons_of_ne_nil fun h => hne (h ▸ List.mem_cons_self)
      intro h
      exact hlf _ List.mem_cons_self (Option.some.inj h ▸ List.mem_cons_self)

theorem drop_line (l rest : Bytes) {p : Nat} (h : l.length + 2 ≤ p) :
    (l ++ (crlf ++ rest)).drop p = rest.drop (p - (l.length + 2)) := by
  rw [List.drop_append, List.drop_eq_nil_of_le (by omega), List.nil_append, List.drop_append,
    List.drop_eq_nil_of_le (by change 2 ≤ _; omega), List.nil_append]
  rfl

/-- **CRLFCRLF** is only at the end of the headers. -/
theorem crlfcrlf_at_end {lines : List Bytes} (hne : [] ∉ lines) (hlf : ∀ l ∈ lines, 0x0a ∉ l) {p : Nat}
    (h : iovCrlfcrlf <+: (headText lines).drop p) : p + 4 = (headText lines).length := by
  induction lines generalizing p with
  | nil =>
      have hlen := h.length_le
      rw [List.length_drop] at hlen
      change 4 ≤ 2 - p at hlen
      omega
  | cons l ls ih =>
      have hl := hlf l List.mem_cons_self
      have hne' : [] ∉ ls := fun hmem => hne (List.mem_cons_of_mem _ hmem)
      have hlf' : ∀ l ∈ ls, 0x0a ∉ l := fun l hmem => hlf l (List.mem_cons_of_mem _ hmem)
      have h₀ := getElem?_of_prefix_drop h (show 0 < iovCrlfcrlf.length by decide)
      have h₁ := getElem?_of_prefix_drop h (show 1 < iovCrlfcrlf.length by decide)
      have h₃ := getElem?_of_prefix_drop h (show 3 < iovCrlfcrlf.length by decide)
      rw [headText_cons] at h h₀ h₁ h₃ ⊢
      rcases lf_index hl h₁ with heq | hle
      · obtain rfl : p = l.length := by omega
        rcases lf_index hl h₃ with heq' | hle'
        · omega
        · cases ls with
          | nil =>
              simp only [headText, crlf, List.length_append]
              rfl
          | cons l' ls' =>
              exfalso
              have hpos : 0 < l'.length := List.length_pos_iff.mpr fun h => hne' (h ▸ List.mem_cons_self)
              rw [List.getElem?_append_right (by omega), headText_cons,
                List.getElem?_append_right (by change 2 ≤ _; omega)] at h₃
              rcases lf_index (hlf' l' List.mem_cons_self) h₃ with h | h
              · change l.length + 3 - l.length - 2 = _ at h
                omega
              · change _ ≤ l.length + 3 - l.length - 2 at h
                omega
      · by_cases heq' : p = l.length + 1
        · exfalso
          rw [heq', List.getElem?_append_right (by omega)] at h₀
          simp [crlf, iovCrlfcrlf] at h₀
        · rw [drop_line l _ (by omega)] at h
          have hend := ih hne' hlf' h
          rw [List.length_append, List.length_append]
          change _ = l.length + (2 + _)
          omega

/-- Two line feeds are nowhere in the headers. -/
theorem not_lflf {lines : List Bytes} (hne : [] ∉ lines) (hlf : ∀ l ∈ lines, 0x0a ∉ l) {p : Nat} :
    ¬ iovLflf <+: (headText lines).drop p := by
  intro h
  induction lines generalizing p with
  | nil =>
      have h₀ := getElem?_of_prefix_drop h (show 0 < iovLflf.length by decide)
      have h₁ := getElem?_of_prefix_drop h (show 1 < iovLflf.length by decide)
      match p with
      | 0 => exact absurd (Option.some.inj h₀) (by decide)
      | _ + 1 => exact absurd h₁ nofun
  | cons l ls ih =>
      have hl := hlf l List.mem_cons_self
      have hne' : [] ∉ ls := fun hmem => hne (List.mem_cons_of_mem _ hmem)
      have hlf' : ∀ l ∈ ls, 0x0a ∉ l := fun l hmem => hlf l (List.mem_cons_of_mem _ hmem)
      have h₀ := getElem?_of_prefix_drop h (show 0 < iovLflf.length by decide)
      have h₁ := getElem?_of_prefix_drop h (show 1 < iovLflf.length by decide)
      rw [headText_cons] at h h₀ h₁
      rcases lf_index hl h₀ with heq | hle
      · rw [show p = l.length + 1 from heq, List.getElem?_append_right (by omega),
          List.getElem?_append_right (by change 2 ≤ _; omega)] at h₁
        have hfirst : (headText ls)[0]? = iovLflf[1]? := by
          rw [← h₁]
          congr 1
          change 0 = l.length + 1 + 1 - l.length - 2
          omega
        exact headText_first hne' hlf' hfirst
      · rw [drop_line l _ (by omega)] at h
        exact ih hne' hlf' h

/-- In a part of the headers their end is not found. -/
theorem headersEnd_none {lines : List Bytes} (hne : [] ∉ lines) (hlf : ∀ l ∈ lines, 0x0a ∉ l) {data : Bytes}
    (hpart : cstr data <+: headText lines) (hshort : (cstr data).length < (headText lines).length) :
    headersEnd data = none := by
  have hcrlf : strstr data iovCrlfcrlf = none := by
    cases hfound : strstr data iovCrlfcrlf with
    | none => rfl
    | some p =>
        have hsound := findSub_sound hfound
        have hle := hsound.length_le
        rw [List.length_drop] at hle
        change 4 ≤ _ at hle
        have hend := crlfcrlf_at_end hne hlf (hsound.trans (hpart.drop p))
        omega
  have hlflf : strstr data iovLflflflf = none := by
    cases hfound : strstr data iovLflflflf with
    | none => rfl
    | some p =>
        have hsound := findSub_sound hfound
        have htwo : iovLflf <+: iovLflflflf := by decide
        exact absurd (htwo.trans (hsound.trans (hpart.drop p))) (not_lflf hne hlf)
  unfold headersEnd mkStringSearch
  rw [hcrlf, hlflf]
  rfl

/-- All of the headers: their end is found. -/
theorem headersEnd_some {lines : List Bytes} (hlines : lines ≠ []) (hne : [] ∉ lines) (hlf : ∀ l ∈ lines, 0x0a ∉ l)
    {data rest : Bytes} (hdata : cstr data = headText lines ++ rest) :
    headersEnd data = some (headText lines).length := by
  obtain ⟨a, hsplit, hpos⟩ : ∃ a, headText lines = a ++ iovCrlfcrlf ∧ 0 < a.length := by
    refine ⟨lines.dropLast.flatMap (· ++ crlf) ++ lines.getLast hlines, ?_, ?_⟩
    · conv_lhs => rw [← List.dropLast_append_getLast hlines]
      simp [headText, crlf, iovCrlfcrlf]
    · rw [List.length_append]
      have hlast := List.length_pos_iff.mpr fun h => hne (h ▸ List.getLast_mem hlines)
      omega
  have hlen : (headText lines).length = a.length + 4 := by
    rw [hsplit, List.length_append]
    rfl
  have hat : iovCrlfcrlf <+: (cstr data).drop a.length := by
    rw [hdata, hsplit, List.append_assoc, List.drop_left]
    exact List.prefix_append _ _
  have hfound : strstr data iovCrlfcrlf = some a.length := by
    refine findSub_eq_some hat ?_ ?_
    · rw [hdata, List.length_append]
      omega
    · intro q hq hmatch
      have hin : iovCrlfcrlf <+: (headText lines).drop q := by
        rw [hdata, List.drop_append_of_le_length (by omega)] at hmatch
        refine List.prefix_of_prefix_length_le hmatch (List.prefix_append _ _) ?_
        rw [List.length_drop]
        change 4 ≤ _
        omega
      have hend := crlfcrlf_at_end hne hlf hin
      omega
  unfold headersEnd mkStringSearch
  rw [hfound]
  have hnot : ¬ position (some a.length) ≤ 0 := by
    change ¬ (a.length : Int) ≤ 0
    omega
  simp only
  rw [if_neg hnot, if_neg hnot, hlen]
  rfl

/-! ## the status line -/

theorem status_prefix_iff {data l : Bytes} (hpre : l ++ crlf <+: data) :
    statusField <+: data ↔ isStatus l = true := by
  rw [isStatus, List.isPrefixOf_iff_prefix]
  constructor
  · intro h
    have hlen : statusField.length = 8 := rfl
    by_cases hlong : 8 ≤ l.length
    · exact List.prefix_of_prefix_length_le h ((List.prefix_append l crlf).trans hpre) hlong
    · exfalso
      obtain ⟨t, rfl⟩ := hpre
      have hcr : statusField[l.length]? = some 0x0d := by
        have hat := getElem?_of_prefix_drop (p := 0) (h : statusField <+: _) (show l.length < _ by omega)
        rw [← hat, Nat.zero_add, List.append_assoc, List.getElem?_append_right le_rfl, Nat.sub_self]
        rfl
      have hnone : 0x0d ∉ statusField := by decide
      exact hnone (List.mem_of_getElem? hcr)
  · intro h
    exact (h.trans (List.prefix_append l crlf)).trans hpre

theorem strncmp_status_iff {data l : Bytes} (hpre : l ++ crlf <+: data) :
    strncmp data statusField 8 = true ↔ isStatus l = true := by
  rw [← status_prefix_iff hpre]
  exact strncmp_iff_isPrefix (by decide)

/-- Without a `Status` line the content starts at the headers. -/
theorem mkPalmCgiStatus_plain {data l : Bytes} (hpre : l ++ crlf <+: data) (hstatus : isStatus l = false)
    (sr : SessionRequest) : mkPalmCgiStatus data sr = (0, sr) := by
  have hcmp : ¬ strncmp data statusField 8 = true := by
    rw [strncmp_status_iff hpre, hstatus]
    exact Bool.false_ne_true
  rw [mkPalmCgiStatus, if_neg hcmp, ite_self]

theorem strstr_crlf {data l rest : Bytes} (hl : 0x0a ∉ l) (hdata : cstr data = l ++ (crlf ++ rest)) :
    strstr data iovCrlf = some l.length := by
  refine findSub_eq_some ?_ ?_ ?_
  · rw [hdata, List.drop_left]
    exact List.prefix_append _ _
  · rw [hdata, List.length_append]
    omega
  · intro q hq hmatch
    have hlf := getElem?_of_prefix_drop hmatch (show 1 < iovCrlf.length by decide)
    rw [hdata] at hlf
    rcases lf_index hl hlf with h | h
    · omega
    · omega

/-- Behind a `Status` line it starts at the next line. -/
theorem mkPalmCgiStatus_status {data l rest : Bytes} {ls : List Bytes} (hl : 0x0a ∉ l)
    (h0 : 0 ∉ headText (l :: ls)) (hdata : cstr data = headText (l :: ls) ++ rest) (hstatus : isStatus l = true)
    (hcode : lineCode l ∈ statusResponse) (sr : SessionRequest) :
    mkPalmCgiStatus data sr = (l.length + 2, { sr with headers := { sr.headers with status := lineCode l } }) := by
  have hcstr : cstr data = l ++ (crlf ++ (headText ls ++ rest)) := by
    rw [hdata, headText_cons]
    simp
  have hpre : l ++ crlf <+: data := by
    have hstring : cstr data <+: data := List.takeWhile_prefix _
    refine List.IsPrefix.trans ?_ hstring
    rw [hcstr, ← List.append_assoc]
    exact List.prefix_append _ _
  have height : 8 ≤ l.length := (List.isPrefixOf_iff_prefix.mp hstatus).length_le
  have hnine : 9 ≤ l.length := by
    by_contra hnot
    have hend : (l ++ crlf).drop 8 = crlf := by rw [show 8 = l.length by omega, List.drop_left]
    rw [lineCode, hend] at hcode
    exact absurd hcode (by decide)
  have hlong : ¬ strlen data ≤ 8 + 3 := by
    have htail : 2 ≤ (headText ls).length := by
      rw [headText, List.length_append]
      exact Nat.le_add_left _ _
    rw [strlen, hcstr]
    simp only [List.length_append]
    change ¬ l.length + (2 + _) ≤ _
    omega
  have hnumber : cstr ((data.drop 8).take 3) = ((l ++ crlf).drop 8).take 3 := by
    obtain ⟨t, rfl⟩ := hpre
    have hcrlf : (l ++ crlf).length = l.length + 2 := List.length_append
    rw [List.drop_append_of_le_length (by omega),
      List.take_append_of_le_length (by rw [List.length_drop]; omega)]
    apply cstr_eq_self
    intro hmem
    apply h0
    rw [headText_cons, ← List.append_assoc]
    exact List.mem_append_left _ (List.mem_of_mem_drop (List.mem_of_mem_take hmem))
  have hne : lineCode l ≠ 0 := by
    intro hzero
    rw [hzero] at hcode
    exact absurd hcode (by decide)
  have hsearch : mkStringSearch data iovCrlf = l.length := by
    rw [mkStringSearch, strstr_crlf hl hcstr]
    rfl
  rw [mkPalmCgiStatus, if_neg hlong, if_pos ((strncmp_status_iff hpre).mpr hstatus), hnumber]
  simp only
  rw [← lineCode, if_neg hne, hsearch, if_pos (by omega)]
  congr 1

/-! ## the headers -/

theorem sendBlock_all {x : Relay} (block : HeaderBlock) (h : ∀ t ∈ x.takes.head?, t = .all) :
    x.sendBlock block = { x with takes := x.takes.tail, sent := x.sent ++ [.head block] } := by
  unfold Relay.sendBlock
  cases htakes : x.takes with
  | nil => rw [← htakes, htakes]; rfl
  | cons t ts =>
      obtain rfl := h t (by rw [htakes]; rfl)
      rfl

/-- The request with a status, and chunks. -/
def PalmRequest.prepared (pr : PalmRequest) (code : Int) (chunked : Bool) : PalmRequest :=
  let te := if chunked then 0 else pr.sr.headers.transferEncoding
  { pr with
    isTeChunked := chunked
    sr := { pr.sr with headers := { pr.sr.headers with status := code, transferEncoding := te } } }

theorem withDefaults_eq {pr : PalmRequest} {code : Int}
    (hcode : (if pr.sr.headers.status = 0 then mkHttpOk else pr.sr.headers.status) = code)
    (hte : pr.isTeChunked = false) : pr.withDefaults =
      pr.prepared code (!pr.sr.protocol.isOld && (code < mkRedirMultiple || code > mkRedirUseProxy)) := by
  have hstatus : (if pr.sr.headers.status = 0 then { pr.sr.headers with status := mkHttpOk }
      else pr.sr.headers) = { pr.sr.headers with status := code } := by
    rw [← hcode]
    split <;> rfl
  unfold PalmRequest.withDefaults PalmRequest.prepared
  simp only [hstatus]
  by_cases hchunked : pr.sr.protocol.isOld = false ∧ (code < mkRedirMultiple ∨ code > mkRedirUseProxy)
  · have htrue : (!pr.sr.protocol.isOld && (code < mkRedirMultiple || code > mkRedirUseProxy)) = true := by
      simpa using hchunked
    rw [if_pos hchunked, htrue]
    rfl
  · have hfalse : (!pr.sr.protocol.isOld && (code < mkRedirMultiple || code > mkRedirUseProxy)) = false := by
      rw [Bool.eq_false_iff]
      intro htrue
      exact hchunked (by simpa using htrue)
    rw [if_neg hchunked, hfalse]
    cases pr
    cases hte
    rfl

/-- `mk_palm_send_headers` with a status that is known. -/
theorem mkPalmSendHeaders_eq (ctx : Ctx) {x : Relay} {code : Int}
    (hcode : (if x.pr.sr.headers.status = 0 then mkHttpOk else x.pr.sr.headers.status) = code)
    (hknown : code ∈ statusResponse) (hte : x.pr.isTeChunked = false) (htakes : ∀ t ∈ x.takes.head?, t = .all) :
    let chunked := !x.pr.sr.protocol.isOld && (code < mkRedirMultiple || code > mkRedirUseProxy)
    ∃ sr', sr'.protocol = x.pr.sr.protocol ∧ mkPalmSendHeaders ctx x = { x with
      pr := { x.pr with sr := sr', isTeChunked := chunked }
      takes := x.takes.tail
      sent := x.sent ++ [.head (headerBlock ctx (x.pr.prepared code chunked).sr)] } := by
  intro chunked
  have hhead := @sendHead_eq ctx (x.pr.prepared code chunked).sr hknown
  rw [mkPalmSendHeaders, withDefaults_eq hcode hte]
  simp only
  rw [hhead]
  let sr' := (x.pr.prepared code chunked).sr
  let sr' := { sr' with headers := { sr'.headers with extraRows := [] } }
  have hblock := @sendBlock_all { x with pr := { x.pr with sr := sr', isTeChunked := chunked } }
    (headerBlock ctx (x.pr.prepared code chunked).sr) htakes
  exact ⟨sr', rfl, hblock⟩

/-- `mk_palm_write` when the client takes everything. -/
theorem mkPalmWrite_whole {x : Relay} {buffer bs w : Bytes} {chunked : Bool} (hbuffer : buffer = bs ++ w)
    (hne : bs ≠ []) (htakes : TakesWhole x.takes (pieceLengths chunked bs.length)) :
    ∃ takes, mkPalmWrite x buffer bs.length chunked =
      (↑bs.length, { x with takes := takes, sent := x.sent ++ pieceWrites chunked bs }) := by
  have hpos := List.length_pos_iff.mpr hne
  cases chunked with
  | false =>
      obtain ⟨takes, hsend, -⟩ := send_whole htakes
      refine ⟨takes, ?_⟩
      rw [mkPalmWrite, if_neg (by omega)]
      simp only [Int.toNat_natCast, hbuffer, List.take_left, Bool.false_eq_true, if_false, hsend]
      rfl
  | true =>
      obtain ⟨takes₁, hsize, htakes₁⟩ := send_whole htakes
      obtain ⟨takes₂, hdata, htakes₂⟩ := @send_whole
        { x with takes := takes₁, sent := x.sent ++ [.bytes (printfX bs.length ++ crlf)] } bs [2] htakes₁
      obtain ⟨takes₃, hend, -⟩ := @send_whole
        { x with takes := takes₂, sent := x.sent ++ [.bytes (printfX bs.length ++ crlf)] ++ [.bytes bs] } crlf [] htakes₂
      refine ⟨takes₃, ?_⟩
      rw [mkPalmWrite, if_neg (by omega)]
      simp only [Int.toNat_natCast, hbuffer, List.take_left, if_true, hsize, hdata, hend]
      simp [pieceWrites]

theorem headText_ne_nil (lines : List Bytes) : headText lines ≠ [] := by
  simp [headText, crlf]

section head

variable {o : PalmOutput} {sr : SessionRequest} {x : Relay}

/-- The `Status` line is cut off: what is left are the headers, and the status is that of
the response. -/
theorem mkPalmCgiStatus_right {data rest : Bytes} {n : Nat} {takes : List Take}
    (hdata : cstr data = headText o.lines ++ rest) (h0 : 0 ∉ headText o.lines) (hright : HeadRight o sr n takes) :
    ∃ k status, mkPalmCgiStatus data sr = (k, { sr with headers := { sr.headers with status := status } }) ∧
      (if status = 0 then mkHttpOk else status) = o.code sr ∧ (headText o.lines).drop k = o.headers ∧
      (o.lines.any isStatus = false → k = 0) := by
  obtain ⟨htail, -, hcode, -, -⟩ := hright
  obtain ⟨l, ls, hlines⟩ := List.exists_cons_of_ne_nil o.lines_ne_nil
  rw [hlines] at htail hdata h0
  have hfilter : ls.filter (!isStatus ·) = ls := by
    rw [List.filter_eq_self]
    intro l' hl'
    rw [htail l' hl']
    rfl
  unfold PalmOutput.code at hcode ⊢
  unfold PalmOutput.headers
  rw [hlines] at hcode ⊢
  cases hstatus : isStatus l with
  | true =>
      rw [List.find?_cons_of_pos hstatus] at hcode ⊢
      have hlf : 0x0a ∉ l := o.no_lf l (by rw [hlines]; exact List.mem_cons_self)
      have hne : lineCode l ≠ 0 := by
        intro hzero
        simp only [hzero] at hcode
        exact absurd hcode (by decide)
      refine ⟨l.length + 2, lineCode l, mkPalmCgiStatus_status hlf h0 hdata hstatus hcode sr, if_neg hne, ?_, ?_⟩
      · rw [List.filter_cons_of_neg (by rw [hstatus]; exact Bool.false_ne_true), hfilter, headText_cons,
          drop_line l _ le_rfl, Nat.sub_self, List.drop_zero]
      · intro hany
        rw [List.any_cons, hstatus] at hany
        contradiction
  | false =>
      have hpre : l ++ crlf <+: data := by
        have hstring : cstr data <+: data := List.takeWhile_prefix _
        refine List.IsPrefix.trans ?_ hstring
        rw [hdata, headText_cons, List.append_assoc, List.append_assoc, ← List.append_assoc l]
        exact List.prefix_append _ _
      have hnone : ls.find? isStatus = none := by
        rw [List.find?_eq_none]
        intro l' hl'
        rw [htail l' hl']
        exact Bool.false_ne_true
      rw [List.find?_cons_of_neg (by rw [hstatus]; exact Bool.false_ne_true), hnone]
      refine ⟨0, sr.headers.status, mkPalmCgiStatus_plain hpre hstatus sr, rfl, ?_, fun _ => rfl⟩
      rw [List.filter_cons_of_pos (by rw [hstatus]; rfl), hfilter, List.drop_zero]

/-- **The headers** are sent, behind the header of the server. -/
theorem readHeaders_right (ctx : Ctx) {rest : Bytes} {n : Nat} (hsr : x.pr.sr = sr)
    (hte : x.pr.isTeChunked = false) (hsent : x.sent = []) (hrun : x.aborted = false)
    (hdata : cstr x.pr.mem = headText o.lines ++ rest) (h0 : 0 ∉ headText o.lines)
    (hright : HeadRight o sr n x.takes) :
    ∃ sr' takes k, sr'.protocol = sr.protocol ∧ (o.lines.any isStatus = false → k = 0) ∧
      x.readHeaders ctx = { x with
        pr := { x.pr with
          sr := sr', isTeChunked := o.chunked sr, headersSent := true
          inOffset := (headText o.lines).length + k }
        takes := takes
        sent := [.head (o.head ctx sr), .bytes o.headers] } := by
  obtain ⟨k, status, hstatus, hcode, hdrop, hk⟩ := mkPalmCgiStatus_right hdata h0 hright
  obtain ⟨-, -, hknown, hall, hwhole⟩ := hright
  have hend := headersEnd_some o.lines_ne_nil o.line_ne_nil o.no_lf hdata
  let x₁ : Relay := { x with pr := { x.pr with sr := { sr with headers := { sr.headers with status := status } } } }
  obtain ⟨sr', hprotocol, hsend⟩ := @mkPalmSendHeaders_eq ctx x₁ (o.code sr) hcode hknown hte hall
  obtain ⟨w, hw⟩ : headText o.lines <+: x.pr.mem := by
    have hstring : cstr x.pr.mem <+: x.pr.mem := List.takeWhile_prefix _
    rw [hdata] at hstring
    exact (List.prefix_append _ _).trans hstring
  have hheaders : o.headers ≠ [] := headText_ne_nil _
  have hkle : k ≤ (headText o.lines).length := by
    by_contra hlt
    rw [List.drop_eq_nil_of_le (by omega)] at hdrop
    exact hheaders hdrop.symm
  have hlen : ((headText o.lines).length - k : Int) = o.headers.length := by
    rw [← hdrop, List.length_drop]
    omega
  have hbuffer : x.pr.mem.drop k = o.headers ++ w := by
    rw [← hw, List.drop_append_of_le_length hkle, hdrop]
  let x₂ : Relay := { x with
    pr := { x.pr with sr := sr', isTeChunked := o.chunked sr }
    takes := x.takes.tail
    sent := [.head (o.head ctx sr)] }
  have hsend' : mkPalmSendHeaders ctx x₁ = x₂ := by
    rw [hsend, show x₁.sent = [] from hsent]
    rfl
  obtain ⟨takes, hwrite⟩ := @mkPalmWrite_whole x₂ (x.pr.mem.drop k) o.headers w false hbuffer hheaders hwhole
  refine ⟨sr', takes, k, hprotocol, hk, ?_⟩
  rw [Relay.readHeaders, hend, hsr, hstatus]
  simp only
  rw [show mkPalmSendHeaders ctx _ = x₂ from hsend']
  have hrun₂ : ¬ x₂.aborted = true := by
    rw [show x₂.aborted = false from hrun]
    exact Bool.false_ne_true
  rw [if_neg hrun₂, hlen, show x₂.pr.mem = x.pr.mem from rfl, hwrite]
  simp only
  rw [if_neg (by omega)]
  rfl

end head

/-! ## the events -/

/-- The buffer and the server hold what is left of the response. -/
inductive Stream (ctx : Ctx) (o : PalmOutput) (sr : SessionRequest) (x : Relay) : Prop
  | waiting : x.pr.headersSent = false → x.pr.isTeChunked = false → x.sent = [] → x.pr.sr = sr →
      x.pr.inBuffer.take x.pr.inLen ++ x.upstream = o.text → (∀ c ∈ x.pr.mem.drop x.pr.inLen, c = 0) →
      Stream ctx o sr x
  | sending {enc body : Bytes} : x.pr.headersSent = true → x.pr.isTeChunked = o.chunked sr →
      x.pr.sr.protocol = sr.protocol → received x.sent = some (o.head ctx sr, o.headers ++ enc) →
      Framed (o.chunked sr) enc body → body ++ (x.unsent ++ x.upstream) = o.body → Stream ctx o sr x

/-- The invariant. -/
structure Inv (ctx : Ctx) (o : PalmOutput) (sr : SessionRequest) (x : Relay) : Prop where
  running : x.aborted = false
  length : x.pr.inBuffer.length = mkPalmBufferSize
  room : x.pr.outBuffer.length = mkPalmBufferSize
  bound : x.pr.inLen ≤ mkPalmBufferSize
  stream : x.ended = false → Stream ctx o sr x
  whole : x.ended = true →
    ∃ enc, received x.sent = some (o.head ctx sr, o.headers ++ enc) ∧ Encodes (o.chunked sr) enc o.body

section events

variable {ctx : Ctx} {o : PalmOutput} {sr : SessionRequest} {x : Relay}

theorem Inv.start (ctx : Ctx) (o : PalmOutput) (sr : SessionRequest) : Inv ctx o sr (start o sr) := by
  refine ⟨rfl, List.length_replicate, List.length_replicate, Nat.zero_le _, fun _ => ?_, fun hc => ?_⟩
  · refine .waiting rfl rfl rfl rfl rfl fun c hc => ?_
    rcases List.mem_append.mp hc with hc | hc
    · exact List.eq_of_mem_replicate hc
    · exact List.eq_of_mem_replicate hc
  · contradiction

theorem Inv.withTakes (h : Inv ctx o sr x) (takes : List Take) : Inv ctx o sr { x with takes := takes } := by
  refine ⟨h.running, h.length, h.room, h.bound, fun hlive => ?_, h.whole⟩
  cases h.stream hlive with
  | waiting hnew hte hsent hsr htext hzero => exact .waiting hnew hte hsent hsr htext hzero
  | sending hdone hte hprotocol hrec hframed hbody => exact .sending hdone hte hprotocol hrec hframed hbody

theorem unsent_length (h : Inv ctx o sr x) : x.unsent.length = x.pr.inLen - x.pr.inOffset := by
  have hbound := h.bound
  rw [Relay.unsent, List.length_drop, List.length_take, h.length]
  omega

/-- **A write event** sends what is there. -/
theorem Inv.eventWrite (h : Inv ctx o sr x) (hlive : x.ended = false)
    (hright : x.pr.headersSent = true → x.unsent ≠ [] →
      TakesWhole x.takes (pieceLengths (o.chunked sr) x.unsent.length)) : Inv ctx o sr x.eventWrite := by
  unfold Relay.eventWrite
  by_cases hdo : 0 < x.pr.inLen ∧ x.pr.headersSent = true
  · rw [if_pos hdo]
    cases h.stream hlive with
    | waiting hnew =>
        rw [hnew] at hdo
        exact absurd hdo.2 Bool.false_ne_true
    | sending hdone hte hprotocol hrec hframed hbody =>
        have hlen := unsent_length h
        by_cases hnil : x.unsent = []
        · have hle : (x.pr.inLen : Int) - x.pr.inOffset ≤ 0 := by
            rw [hnil, List.length_nil] at hlen
            omega
          have hwrite : mkPalmWrite x (x.pr.mem.drop x.pr.inOffset) (x.pr.inLen - x.pr.inOffset)
              x.pr.isTeChunked = (0, x) := if_pos hle
          simp only [hwrite]
          rw [if_neg (by omega)]
          refine ⟨h.running, h.length, h.room, Nat.zero_le _, fun _ => ?_, h.whole⟩
          rw [hnil] at hbody
          exact .sending hdone hte hprotocol hrec hframed hbody
        · have hpos := List.length_pos_iff.mpr hnil
          have hwidth : ((x.pr.inLen : Int) - x.pr.inOffset) = x.unsent.length := by omega
          have hbuffer : x.pr.mem.drop x.pr.inOffset = x.unsent ++ x.pr.mem.drop x.pr.inLen := by
            have hbound := h.bound
            have htake : x.pr.mem.take x.pr.inLen = x.pr.inBuffer.take x.pr.inLen :=
              List.take_append_of_le_length (by rw [h.length]; exact hbound)
            conv_lhs => rw [← List.take_append_drop x.pr.inLen x.pr.mem]
            rw [htake, List.drop_append_of_le_length, ← Relay.unsent]
            rw [List.length_take, h.length]
            omega
          have htakes := hright hdone hnil
          rw [← hte] at htakes
          obtain ⟨takes, hwrite⟩ := mkPalmWrite_whole hbuffer hnil htakes
          simp only [hwidth, hwrite]
          rw [if_neg (by omega)]
          refine ⟨h.running, h.length, h.room, Nat.zero_le _, fun _ => ?_, fun hended => ?_⟩
          · have hrec' := received_pieceWrites hrec x.pr.isTeChunked x.unsent
            rw [List.append_assoc] at hrec'
            refine .sending hdone hte hprotocol hrec' (by rw [hte]; exact hframed.snoc hnil) ?_
            exact (List.append_assoc ..).trans hbody
          · rw [show x.ended = true from hended] at hlive
            contradiction
  · rw [if_neg hdo]
    exact h

/-- The end of the stream, with everything sent. -/
theorem Inv.eventEnd (h : Inv ctx o sr x) (hlive : x.ended = false) (hend : x.upstream = [])
    (hdone : x.pr.headersSent = true) (hnil : x.unsent = []) (htakes : o.chunked sr = true → TakesWhole x.takes [5]) :
    Inv ctx o sr (x.eventRead ctx 0) := by
  cases h.stream hlive with
  | waiting hnew =>
      rw [hnew] at hdone
      contradiction
  | @sending enc body _ hte hprotocol hrec hframed hbody =>
      rw [hnil, hend, List.append_nil] at hbody
      have hall : body = o.body := by rw [← hbody, List.append_nil]
      have hclosed := hframed.close
      rw [hall] at hclosed
      rw [Relay.eventRead, if_pos rfl]
      simp only
      cases hchunked : o.chunked sr with
      | false =>
          rw [hchunked] at hte hclosed
          have hplain : mkPalmSendEndChunk x = x := if_neg (by rw [hte]; exact Bool.false_ne_true)
          rw [hplain, ite_self]
          refine ⟨h.running, h.length, h.room, h.bound, fun hc => ?_, fun _ => ⟨enc, hrec, ?_⟩⟩
          · contradiction
          · rw [hchunked]
            rwa [frameEnd, if_neg Bool.false_ne_true, List.append_nil] at hclosed
      | true =>
          obtain ⟨takes, hsend, -⟩ := @send_whole x lastChunk [] (htakes hchunked)
          rw [hchunked] at hte hclosed
          have hnew : ¬ x.pr.sr.protocol.isOld = true := by
            rw [hprotocol]
            intro hold
            rw [PalmOutput.chunked, hold] at hchunked
            contradiction
          rw [if_neg hnew, mkPalmSendEndChunk, if_pos hte, hsend]
          refine ⟨h.running, h.length, h.room, h.bound, fun hc => ?_, fun _ => ⟨enc ++ lastChunk, ?_, ?_⟩⟩
          · contradiction
          · have hrec' := received_snoc hrec lastChunk
            rwa [List.append_assoc] at hrec'
          · rw [hchunked]
            exact hclosed

/-- The bytes read lie behind those that were there. -/
theorem read_text {n : Nat} (h : Inv ctx o sr x) (hn : n ≤ x.upstream.length) (hroom : n ≤ mkPalmBufferSize - x.pr.inLen) :
    (fillAt x.pr.inBuffer x.pr.inLen (x.upstream.take n)).take (x.pr.inLen + n) =
        x.pr.inBuffer.take x.pr.inLen ++ x.upstream.take n ∧
      (fillAt x.pr.inBuffer x.pr.inLen (x.upstream.take n)).drop (x.pr.inLen + n) =
        x.pr.inBuffer.drop (x.pr.inLen + n) ∧
      (fillAt x.pr.inBuffer x.pr.inLen (x.upstream.take n)).length = mkPalmBufferSize := by
  have hread : (x.upstream.take n).length = n := List.length_take_of_le hn
  have hbound := h.bound
  have hfits : x.pr.inLen + (x.upstream.take n).length ≤ x.pr.inBuffer.length := by
    rw [hread, h.length]
    omega
  have hle := Nat.le_of_add_right_le hfits
  have htake := take_fillAt hle (x.upstream.take n)
  have hdrop := drop_fillAt hle (x.upstream.take n)
  rw [hread] at htake hdrop
  exact ⟨htake, hdrop, (length_fillAt hfits).trans h.length⟩

/-- The relay when `n` more bytes have been read. -/
def Relay.filled (x : Relay) (n : Nat) : Relay :=
  { x with
    pr := { x.pr with
      inBuffer := fillAt x.pr.inBuffer x.pr.inLen (x.upstream.take n)
      inLen := x.pr.inLen + n }
    upstream := x.upstream.drop n }

/-- Behind the bytes read both buffers are as they were. -/
theorem filled_mem_drop {n : Nat} (h : Inv ctx o sr x) (hn : n ≤ x.upstream.length)
    (hroom : n ≤ mkPalmBufferSize - x.pr.inLen) :
    (x.filled n).pr.mem.drop (x.pr.inLen + n) = (x.pr.mem.drop x.pr.inLen).drop n := by
  obtain ⟨-, hdrop, hlength⟩ := read_text h hn hroom
  have hbound := h.bound
  rw [List.drop_drop]
  change (fillAt _ _ _ ++ x.pr.outBuffer).drop _ = (x.pr.inBuffer ++ x.pr.outBuffer).drop _
  rw [List.drop_append_of_le_length (by rw [hlength]; omega), hdrop,
    List.drop_append_of_le_length (by rw [h.length]; omega)]

/-- Zeros follow the bytes read, one at least. -/
theorem filled_mem_eq {n : Nat} (h : Inv ctx o sr x) (hn : n ≤ x.upstream.length)
    (hroom : n ≤ mkPalmBufferSize - x.pr.inLen) (hzero : ∀ c ∈ x.pr.mem.drop x.pr.inLen, c = 0) :
    (∀ c ∈ (x.filled n).pr.mem.drop (x.pr.inLen + n), c = 0) ∧
      ∃ w, (x.filled n).pr.mem = x.pr.inBuffer.take x.pr.inLen ++ x.upstream.take n ++ 0 :: w := by
  obtain ⟨htake, -, hlength⟩ := read_text h hn hroom
  have hbound := h.bound
  have hrest : ∀ c ∈ (x.filled n).pr.mem.drop (x.pr.inLen + n), c = 0 := by
    intro c hc
    rw [filled_mem_drop h hn hroom] at hc
    exact hzero c (List.mem_of_mem_drop hc)
  refine ⟨hrest, ?_⟩
  have hlen : 0 < ((x.filled n).pr.mem.drop (x.pr.inLen + n)).length := by
    have hsize : 0 < mkPalmBufferSize := by decide
    rw [List.length_drop]
    change 0 < (fillAt _ _ _ ++ x.pr.outBuffer).length - (x.pr.inLen + n)
    rw [List.length_append, hlength, h.room]
    omega
  obtain ⟨c, w, hcons⟩ := List.exists_cons_of_length_pos hlen
  obtain rfl := hrest c (by rw [hcons]; exact List.mem_cons_self)
  refine ⟨w, ?_⟩
  rw [← hcons, ← htake]
  conv_lhs => rw [← List.take_append_drop (x.pr.inLen + n) (x.filled n).pr.mem]
  congr 1
  change (fillAt _ _ _ ++ x.pr.outBuffer).take _ = _
  rw [List.take_append_of_le_length (by rw [hlength]; omega)]

/-- Behind the headers, and what is dropped with them, the body is left. -/
theorem body_left {v rest : Bytes} {k : Nat} (hv : v ++ rest = o.text)
    (hlen : (headText o.lines).length ≤ v.length) (hk : o.lines.any isStatus = false → k = 0)
    (hall : o.lines.any isStatus = true → v.length = (headText o.lines).length) :
    v.drop ((headText o.lines).length + k) ++ rest = o.body := by
  obtain ⟨b, rfl⟩ : headText o.lines <+: v :=
    List.prefix_of_prefix_length_le (List.prefix_append _ _) ⟨_, hv⟩ hlen
  have hbody : b ++ rest = o.body := by
    rw [List.append_assoc] at hv
    exact List.append_cancel_left hv
  cases hany : o.lines.any isStatus with
  | false => rw [hk hany, Nat.add_zero, List.drop_left, hbody]
  | true =>
      have hwhole := hall hany
      rw [List.length_append] at hwhole
      obtain rfl : b = [] := List.length_eq_zero_iff.mp (by omega)
      rw [List.drop_eq_nil_of_le (by rw [List.append_nil]; omega), ← hbody]

/-- A part of the headers, or headers with a NUL in them. -/
theorem headersEnd_of_not_in {v w : Bytes} (hv : v <+: o.text) (hnot : ¬ HeadersIn o v.length) :
    headersEnd (v ++ 0 :: w) = none := by
  have hstring : cstr v <+: v := List.takeWhile_prefix _
  have hhead : headText o.lines <+: o.text := List.prefix_append _ _
  have hpart : cstr v <+: headText o.lines ∧ (cstr v).length < (headText o.lines).length := by
    by_cases hlen : (headText o.lines).length ≤ v.length
    · have h0 : 0 ∈ headText o.lines := by
        by_contra h0
        exact hnot ⟨hlen, h0⟩
      obtain ⟨b, rfl⟩ := List.prefix_of_prefix_length_le hhead hv hlen
      rw [cstr_append_of_mem h0]
      exact ⟨List.takeWhile_prefix _, strlen_lt_of_mem h0⟩
    · have hle := hstring.length_le
      exact ⟨hstring.trans (List.prefix_of_prefix_length_le hv hhead (by omega)), by omega⟩
  rw [← cstr_append_nul v w] at hpart
  exact headersEnd_none o.line_ne_nil o.no_lf hpart.1 hpart.2

/-- **A read event** before the headers are sent. -/
theorem Inv.eventRead_waiting {n : Nat} (h : Inv ctx o sr x) (hlive : x.ended = false) (hpos : n ≠ 0)
    (hn : n ≤ x.upstream.length) (hroom : n ≤ mkPalmBufferSize - x.pr.inLen) (hnew : x.pr.headersSent = false)
    (hright : HeadersIn o (x.pr.inLen + n) → HeadRight o sr (x.pr.inLen + n) x.takes) :
    Inv ctx o sr (x.eventRead ctx n) := by
  cases h.stream hlive with
  | sending hdone =>
      rw [hnew] at hdone
      contradiction
  | waiting _ hte hsent hsr htext hzero =>
      obtain ⟨htake, -, hlength⟩ := read_text h hn hroom
      obtain ⟨hrest, w, hmem⟩ := filled_mem_eq h hn hroom hzero
      have hbound := h.bound
      have hfilled : (x.filled n).pr.inLen ≤ mkPalmBufferSize := by
        change x.pr.inLen + n ≤ _
        omega
      have hv : (x.pr.inBuffer.take x.pr.inLen ++ x.upstream.take n) ++ (x.filled n).upstream = o.text := by
        rw [← htext, List.append_assoc]
        exact congrArg _ (List.take_append_drop n x.upstream)
      have hvlen : (x.pr.inBuffer.take x.pr.inLen ++ x.upstream.take n).length = x.pr.inLen + n := by
        rw [List.length_append, List.length_take, h.length, List.length_take]
        omega
      have hstep : x.eventRead ctx n = (x.filled n).readHeaders ctx := by
        rw [Relay.eventRead, if_neg hpos]
        simp only
        rw [if_neg (by rw [hnew]; exact Bool.false_ne_true)]
        rfl
      rw [hstep]
      generalize hvdef : x.pr.inBuffer.take x.pr.inLen ++ x.upstream.take n = v at htake hmem hv hvlen
      by_cases hin : HeadersIn o (x.pr.inLen + n)
      · have hhead := hright hin
        obtain ⟨hlen, h0⟩ := hin
        obtain ⟨b, hb⟩ : headText o.lines <+: v :=
          List.prefix_of_prefix_length_le (List.prefix_append _ _) ⟨_, hv⟩ (by omega)
        have hdata : cstr (x.filled n).pr.mem = headText o.lines ++ cstr b := by
          rw [hmem, cstr_append_nul, ← hb, cstr_append h0]
        obtain ⟨sr', takes, k, hprotocol, hk, heq⟩ :=
          @readHeaders_right o sr (x.filled n) ctx _ _ hsr hte hsent h.running hdata h0 hhead
        have hleft := body_left hv (by omega) hk fun hany => by rw [hvlen, hhead.2.1 hany]
        have hrec := received_snoc (received_head (o.head ctx sr)) o.headers
        rw [List.nil_append] at hrec
        rw [heq]
        refine ⟨h.running, hlength, h.room, hfilled, fun _ => ?_, fun hended => ?_⟩
        · refine .sending rfl rfl hprotocol (by rw [List.append_nil]; exact hrec) (.nil _) ?_
          rw [← htake] at hleft
          exact hleft
        · rw [show x.ended = true from hended] at hlive
          contradiction
      · rw [← hvlen] at hin
        have hnone := headersEnd_of_not_in ⟨_, hv⟩ hin (w := w)
        rw [← hmem] at hnone
        rw [Relay.readHeaders, hnone]
        refine ⟨h.running, hlength, h.room, hfilled, fun _ => ?_, h.whole⟩
        refine .waiting hnew hte hsent hsr ?_ hrest
        rw [← hv]
        congr 1

/-- A read event behind the headers. -/
theorem Inv.eventRead_sending {n : Nat} (h : Inv ctx o sr x) (hlive : x.ended = false) (hpos : n ≠ 0)
    (hn : n ≤ x.upstream.length) (hroom : n ≤ mkPalmBufferSize - x.pr.inLen) (hdone : x.pr.headersSent = true)
    (hoffset : x.pr.inOffset ≤ x.pr.inLen) : Inv ctx o sr (x.eventRead ctx n) := by
  cases h.stream hlive with
  | waiting hnew =>
      rw [hnew] at hdone
      contradiction
  | sending _ hte hprotocol hrec hframed hbody =>
      obtain ⟨htake, -, hlength⟩ := read_text h hn hroom
      have hbound := h.bound
      have hunsent : ((fillAt x.pr.inBuffer x.pr.inLen (x.upstream.take n)).take (x.pr.inLen + n)).drop x.pr.inOffset =
          x.unsent ++ x.upstream.take n := by
        rw [htake, List.drop_append_of_le_length (by rw [List.length_take, h.length]; omega)]
        rfl
      rw [Relay.eventRead, if_neg hpos]
      simp only
      rw [if_pos hdone]
      refine ⟨h.running, hlength, h.room, ?_, fun _ => ?_, fun hended => ?_⟩
      · change x.pr.inLen + n ≤ _
        omega
      · refine .sending hdone hte hprotocol hrec hframed ?_
        rw [← hbody, Relay.unsent]
        simp only
        rw [hunsent, List.append_assoc, List.take_append_drop]
      · rw [show x.ended = true from hended] at hlive
        contradiction

/-- **One step** from the invariant under the condition. -/
theorem Inv.step (h : Inv ctx o sr x) {e : Event} (hright : EventRight o sr x e) {x' : Relay} (hstep : Step ctx x e x') :
    Inv ctx o sr x' := by
  unfold Step Relay.step at hstep
  split at hstep
  · next hcan =>
      cases hstep
      obtain ⟨⟨hlive, -⟩, hposs⟩ := hcan
      cases e with
      | read n takes =>
          obtain ⟨hn, hroom, -⟩ := hposs
          have hinv := h.withTakes takes
          rw [EventRight] at hright
          by_cases hzero : n = 0
          · rw [if_pos hzero] at hright
            obtain ⟨hend, hdone, hnil, htakes⟩ := hright
            subst hzero
            exact hinv.eventEnd hlive hend hdone hnil htakes
          · rw [if_neg hzero] at hright
            by_cases hdone : x.pr.headersSent = true
            · rw [if_pos hdone] at hright
              exact hinv.eventRead_sending hlive hzero hn hroom hdone hright
            · rw [if_neg hdone] at hright
              exact hinv.eventRead_waiting hlive hzero hn hroom (Bool.eq_false_iff.mpr hdone) hright
      | write takes => exact (h.withTakes takes).eventWrite hlive hright
  · contradiction

theorem Inv.delivers (h : Inv ctx o sr x) : Delivers ctx o sr x := by
  refine ⟨h.running, fun hlive => ?_, h.whole⟩
  cases h.stream hlive with
  | waiting _ _ hsent => exact .inl hsent
  | sending _ _ _ hrec hframed hbody => exact .inr ⟨_, _, hrec, hframed, ⟨_, hbody⟩⟩

/-- **A run whose events are right** delivers the response of the server. -/
theorem palm_runs_deliver (ctx : Ctx) (o : PalmOutput) (sr : SessionRequest) {events : List Event} {x : Relay}
    (h : Run (Guarded (EventRight o sr) (Step ctx)) (start o sr) events x) : Delivers ctx o sr x := by
  have hinv : Inv ctx o sr x :=
    h.guarded_invariant (fun _ _ _ hi hright hstep => hi.step hright hstep) (.start ctx o sr)
  exact hinv.delivers

end events

/-! ## one response, two ways to read it -/

def notFoundResponse : PalmOutput where
  lines := [ascii "Status: 404 Not Found".toList, ascii "Content-Type: text/plain".toList]
  body := ascii "gone".toList
  lines_ne_nil := List.cons_ne_nil _ _
  line_ne_nil := by decide
  no_lf := by decide

def palmRequest : SessionRequest := { protocol := .http11 }

/-- The headers are read alone, and the client takes them before the body comes. -/
def headersFirst : List Event := [.read 51 [], .write [], .read 4 [], .write [.all, .upTo 4], .read 0 []]

/-- Headers and body are read at once. -/
def allAtOnce : List Event := [.read 55 [], .write [], .read 0 []]

theorem palm_runs_deliver_headers_first : ∃ x, Run (Step sampleCtx) (start notFoundResponse palmRequest) headersFirst x ∧
    x.ended = true ∧ Delivers sampleCtx notFoundResponse palmRequest x := by
  obtain ⟨x, hx, hended⟩ := (Option.any_eq_true ..).mp (show ((headersFirst.foldlM (fun x e =>
      if EventRight notFoundResponse palmRequest x e then x.step sampleCtx e else none)
      (start notFoundResponse palmRequest)).any fun x => x.ended) = true by decide +kernel)
  have hrun := Run.guarded_of_foldlM hx
  exact ⟨x, hrun.of_guarded, hended, palm_runs_deliver sampleCtx notFoundResponse palmRequest hrun⟩

/-- Behind a `Status` line the body is lost. -/
theorem not_palm_delivers_at_once : ¬ ∀ (ctx : Ctx) (o : PalmOutput) (sr : SessionRequest) (events : List Event)
    (x : Relay), Run (Step ctx) (start o sr) events x → Delivers ctx o sr x := by
  intro hall
  obtain ⟨x, hx, hwrong⟩ := (Option.any_eq_true ..).mp (show ((allAtOnce.foldlM (Relay.step sampleCtx)
      (start notFoundResponse palmRequest)).any fun x => x.ended && (received x.sent).any fun p =>
        dechunk (p.2.drop notFoundResponse.headers.length) == some []) = true by decide +kernel)
  rw [Bool.and_eq_true] at hwrong
  obtain ⟨enc, hrec, henc⟩ :=
    (hall sampleCtx notFoundResponse palmRequest allAtOnce x (Run.of_foldlM hx)).whole hwrong.1
  rw [hrec, Option.any_some, List.drop_left, beq_iff_eq] at hwrong
  have hbody : some (ascii "gone".toList) = some [] := Eq.trans (Eq.symm henc) hwrong.2
  exact absurd (Option.some.inj hbody) (by decide)

end Monkey.Palm
