import Monkey.Cgi.Output
import Monkey.Lib.Run

/-!
# Monkey.Cgi.Delivery

What a client gets of the output of a script: a header with the script's headers behind
it, and the body, in chunks on HTTP/1.1.

The bytes are right as long as each write event finds what it searches for in the valid
bytes.  A write event with a part of the headers only, a status line that is not the
first eight bytes and more, or an empty line the search does not know spoils them.
-/

namespace Monkey.Cgi

/-! ## the output of a script -/

/-- Header lines and the empty line, which ends with CRLF or LF. -/
inductive HeaderText : Bytes → Prop
  | lf : HeaderText [0x0a]
  | crlf : HeaderText crlf
  | line {l rest : Bytes} : l ≠ [] → l ≠ [0x0d] → 0x0a ∉ l → HeaderText rest → HeaderText (l ++ 0x0a :: rest)

/-- `Status: ` or an HTTP version, and the rest of the line. -/
def StatusLine (l : Bytes) : Prop :=
  ∃ text, l = text ++ [0x0a] ∧ 0x0a ∉ text ∧ (statusField <+: text ∨ httpField ++ [0x2f] <+: text)

/-- The output of a script: a status line, if there is one, then the headers and the
body. -/
structure ScriptOutput where
  status : Bytes
  headers : Bytes
  body : Bytes
  status_line : status = [] ∨ StatusLine status
  headers_text : HeaderText headers
  first_line : status = [] → ∀ l, StatusLine l → ¬ l <+: headers

namespace ScriptOutput

variable (o : ScriptOutput)

/-- Everything the script writes. -/
def text : Bytes := o.status ++ (o.headers ++ o.body)

/-- The status the script asks for: the number behind the first blank of its line. -/
def code : Int :=
  if o.status = [] then mkHttpOk else toInt (strtol ((o.status.dropWhile (· ≠ 0x20)).drop 1))

/-- The header of the response to `sr`. -/
def head (ctx : Ctx) (sr : SessionRequest) : HeaderBlock :=
  headerBlock ctx (mkHeaderSetHttpStatus (doCgiRequest sr).sr o.code)

end ScriptOutput

/-- The request before its first event. -/
def start (o : ScriptOutput) (sr : SessionRequest) : Relay := { r := doCgiRequest sr, pipe := o.text }

/-- The response is in chunks. -/
def onHttp11 (sr : SessionRequest) : Bool := !sr.protocol.isOld

/-- **What the client is to get**: at any time a beginning of the response, and all of it
in the end.  Nothing but the valid bytes is read or sent. -/
structure Delivers (ctx : Ctx) (o : ScriptOutput) (sr : SessionRequest) (x : Relay) : Prop where
  running : x.aborted = false
  inside : x.strayed = false
  beginning : x.ended = false → x.sent = [] ∨
    ∃ raw, received x.sent = some (o.head ctx sr, raw) ∧
      (raw <+: o.headers ∨
        ∃ enc body, raw = o.headers ++ enc ∧ Framed (onHttp11 sr) enc body ∧ body <+: o.body)
  whole : x.ended = true →
    ∃ enc, received x.sent = some (o.head ctx sr, o.headers ++ enc) ∧ Encodes (onHttp11 sr) enc o.body

/-! ## the events that are right -/

/-- The valid bytes. -/
def Relay.valid (x : Relay) : Bytes := x.r.inBuf.take x.r.inLen

/-- A status line is there, its number ends in the valid bytes, and it is the script's: the
line is longer than eight bytes and its number a known status. -/
def StatusRight (o : ScriptOutput) (v : Bytes) : Prop :=
  8 ≤ v.length ∧
    match statusPos v with
    | none => True
    | some pos =>
        afterNumber (v.drop pos) ≠ [] ∧
          (0x0a ∈ v.drop 8 →
            8 < o.status.length ∧ toInt (strtol (v.drop pos)) = o.code ∧ o.code ∈ statusResponse)

/-- The search for the end of the headers ends in the valid bytes, and where the
body begins, if the body is to be in chunks. -/
def HeadersRight (o : ScriptOutput) (chunked : Bool) (pipe u : Bytes) : Prop :=
  ((strstr u iovCrlfcrlf).isSome = true ∨ 0 ∈ u) ∧
    (chunked = true →
      match headersEnd u with
      | some len => len + o.body.length = u.length + pipe.length
      | none => o.body.length ≤ pipe.length)

/-- The end of a status line is not there yet. -/
def Waiting (v : Bytes) : Prop := (statusPos v).isSome = true ∧ 0x0a ∉ v.drop 8

instance (o : ScriptOutput) (v : Bytes) : Decidable (StatusRight o v) :=
  match h : statusPos v with
  | none => decidable_of_iff (8 ≤ v.length) (by simp [StatusRight, h])
  | some pos =>
      decidable_of_iff (8 ≤ v.length ∧ afterNumber (v.drop pos) ≠ [] ∧
          (0x0a ∈ v.drop 8 →
            8 < o.status.length ∧ toInt (strtol (v.drop pos)) = o.code ∧ o.code ∈ statusResponse))
        (by simp [StatusRight, h])

instance (o : ScriptOutput) (chunked : Bool) (pipe u : Bytes) : Decidable (HeadersRight o chunked pipe u) :=
  match h : headersEnd u with
  | none =>
      decidable_of_iff (((strstr u iovCrlfcrlf).isSome = true ∨ 0 ∈ u) ∧
          (chunked = true → o.body.length ≤ pipe.length))
        (by simp [HeadersRight, h])
  | some len =>
      decidable_of_iff (((strstr u iovCrlfcrlf).isSome = true ∨ 0 ∈ u) ∧
          (chunked = true → len + o.body.length = u.length + pipe.length))
        (by simp [HeadersRight, h])

instance (v : Bytes) : Decidable (Waiting v) := inferInstanceAs (Decidable (_ ∧ _))

/-- A write event with something in the buffer. -/
def WriteRight (o : ScriptOutput) (x : Relay) : Prop :=
  0 < x.r.inLen →
    (x.r.statusDone = false → StatusRight o x.valid) ∧
      (¬ (x.r.statusDone = false ∧ Waiting x.valid) → x.r.allHeadersDone = false →
        HeadersRight o x.r.chunked x.pipe (x.valid.drop (if x.r.statusDone then 0 else o.status.length)))

instance (o : ScriptOutput) (x : Relay) : Decidable (WriteRight o x) := inferInstanceAs (Decidable (_ → _ ∧ _))

/-- **The condition on an event**: the writes are right, and when the pipe hangs up nothing
is left in it, and no status line is without its end. -/
def EventRight (o : ScriptOutput) (x : Relay) : Event → Prop
  | .read _ => True
  | .write _ => WriteRight o x
  | .hangup _ => (x.pipe = [] ∧ (x.r.statusDone = true ∨ ¬ Waiting x.valid)) ∧ WriteRight o x

instance (o : ScriptOutput) (x : Relay) : (e : Event) → Decidable (EventRight o x e)
  | .read _ => inferInstanceAs (Decidable True)
  | .write _ => inferInstanceAs (Decidable (WriteRight o x))
  | .hangup _ => inferInstanceAs (Decidable ((_ ∧ _) ∧ _))

/-- One event. -/
def Step (ctx : Ctx) (x : Relay) (e : Event) (x' : Relay) : Prop := x.step ctx e = some x'

/-! ## where the response has got to -/

/-- What was sent behind the header, and what is left of the output. -/
inductive Passed (o : ScriptOutput) (chunked done : Bool) (raw rest : Bytes) : Prop
  | plain : chunked = false → raw ++ rest = o.headers ++ o.body → Passed o chunked done raw rest
  | headers : chunked = true → done = false → raw ++ rest = o.headers ++ o.body →
      raw.length ≤ o.headers.length → Passed o chunked done raw rest
  | body {enc body : Bytes} : chunked = true → done = true → raw = o.headers ++ enc → InChunks enc body →
      body ++ rest = o.body → Passed o chunked done raw rest

/-- The buffer and the pipe hold what is left of the output. -/
inductive Stream (ctx : Ctx) (o : ScriptOutput) (sr : SessionRequest) (x : Relay) : Prop
  | waiting {status : Int} : x.r.statusDone = false → x.r.allHeadersDone = false → x.sent = [] →
      x.valid ++ x.pipe = o.text → x.r.sr = mkHeaderSetHttpStatus (doCgiRequest sr).sr status →
      (statusPos o.text = none → status = mkHttpOk) → Stream ctx o sr x
  | sending {raw : Bytes} : x.r.statusDone = true → received x.sent = some (o.head ctx sr, raw) →
      Passed o (onHttp11 sr) x.r.allHeadersDone raw (x.valid ++ x.pipe) → Stream ctx o sr x

/-- The invariant. -/
structure Inv (ctx : Ctx) (o : ScriptOutput) (sr : SessionRequest) (x : Relay) : Prop where
  running : x.aborted = false
  inside : x.strayed = false
  chunked : x.r.chunked = onHttp11 sr
  length : x.r.inBuf.length = pathLen
  bound : x.r.inLen ≤ pathLen
  stream : x.ended = false → Stream ctx o sr x
  whole : x.ended = true →
    ∃ enc, received x.sent = some (o.head ctx sr, o.headers ++ enc) ∧ Encodes (onHttp11 sr) enc o.body

/-- What a write event leaves as it was. -/
structure Keeps (x x' : Relay) : Prop where
  inBuf : x'.r.inBuf = x.r.inBuf
  chunked : x'.r.chunked = x.r.chunked
  pipe : x'.pipe = x.pipe
  strayed : x'.strayed = x.strayed
  ended : x'.ended = x.ended
  aborted : x'.aborted = x.aborted

theorem Keeps.refl (x : Relay) : Keeps x x := ⟨rfl, rfl, rfl, rfl, rfl, rfl⟩

theorem Keeps.trans {x y z : Relay} (h : Keeps x y) (h' : Keeps y z) : Keeps x z :=
  ⟨h'.inBuf.trans h.inBuf, h'.chunked.trans h.chunked, h'.pipe.trans h.pipe, h'.strayed.trans h.strayed,
    h'.ended.trans h.ended, h'.aborted.trans h.aborted⟩

/-! ## the status line -/

theorem take_of_prefix {pre v t : Bytes} (hpre : pre <+: t) (hv : v <+: t) (hlen : pre.length ≤ v.length) :
    v.take pre.length = pre :=
  (List.prefix_iff_eq_take.mp (List.prefix_of_prefix_length_le hpre hv hlen)).symm

theorem statusPos_append {v : Bytes} (h : 8 ≤ v.length) (w : Bytes) : statusPos (v ++ w) = statusPos v := by
  rw [statusPos, statusPos, List.take_append_of_le_length h, List.take_append_of_le_length (by omega)]

/-- A status line is seen in the first eight bytes. -/
theorem status_eq_nil {o : ScriptOutput} {v : Bytes} (hlen : 8 ≤ v.length) (hv : v <+: o.text)
    (hpos : statusPos v = none) : o.status = [] := by
  rcases o.status_line with hnil | ⟨t, hline, -, hfield⟩
  · exact hnil
  · exfalso
    have htext : t <+: o.text := by
      rw [ScriptOutput.text, hline, List.append_assoc]
      exact List.prefix_append _ _
    unfold statusPos at hpos
    rcases hfield with hfield | hfield
    · have hstatus : v.take 8 = statusField := take_of_prefix (hfield.trans htext) hv hlen
      rw [if_pos hstatus] at hpos
      contradiction
    · have hpre : httpField <+: o.text := ((List.prefix_append _ _).trans hfield).trans htext
      have hhttp : v.take 4 = httpField := take_of_prefix hpre hv (by change 4 ≤ _; omega)
      rw [if_pos hhttp] at hpos
      split at hpos <;> contradiction

theorem memchr_first {a b : Bytes} {c : UInt8} (h : c ∉ a) :
    memchr (a ++ c :: b) c (a ++ c :: b).length = some a.length := by
  rw [memchr, List.take_length, List.findIdx?_append]
  have hnone : a.findIdx? (· == c) = none := by
    rw [List.findIdx?_eq_none_iff]
    intro d hd
    rw [beq_eq_false_iff_ne]
    rintro rfl
    exact h hd
  simp [hnone, List.findIdx?_cons]

/-- The end of the status line is where it is looked for. -/
theorem memchr_status {o : ScriptOutput} {v : Bytes} (hv : v <+: o.text) (hlong : 8 < o.status.length)
    (hmem : 0x0a ∈ v.drop 8) :
    memchr (v.drop 8) 0x0a (v.length - 8) = some (o.status.length - 9) ∧ o.status.length ≤ v.length := by
  rcases o.status_line with hnil | ⟨t, hline, hnot, -⟩
  · rw [hnil] at hlong
    contradiction
  · have hlen : o.status.length = t.length + 1 := by rw [hline, List.length_append]; rfl
    have htext : o.text = t ++ 0x0a :: (o.headers ++ o.body) := by rw [ScriptOutput.text, hline]; simp
    have hle : t.length + 1 ≤ v.length := by
      by_contra hshort
      have hpre : v <+: t := by
        refine List.prefix_of_prefix_length_le hv ?_ (by omega)
        rw [htext]
        exact List.prefix_append _ _
      exact hnot (hpre.subset (List.mem_of_mem_drop hmem))
    obtain ⟨v', hv'⟩ : ∃ v', v = t ++ 0x0a :: v' := by
      obtain ⟨v', hv'⟩ : t ++ [0x0a] <+: v := by
        refine List.prefix_of_prefix_length_le ?_ hv (by simpa using hle)
        rw [htext]
        exact ⟨o.headers ++ o.body, by simp⟩
      exact ⟨v', by rw [← hv']; simp⟩
    have hdrop : v.drop 8 = t.drop 8 ++ 0x0a :: v' := by
      rw [hv', List.drop_append_of_le_length (by omega)]
    refine ⟨?_, by omega⟩
    rw [show v.length - 8 = (v.drop 8).length by rw [List.length_drop], hdrop,
      memchr_first fun h => hnot (List.mem_of_mem_drop h), List.length_drop]
    congr 1
    omega

theorem look_eq {x : Relay} {valid reach : Nat} (h : reach ≤ valid) : x.look valid reach = x := by
  rw [Relay.look, decide_eq_false (by omega), Bool.or_false]

theorem headerSend_eq {x : Relay} (ctx : Ctx) (outptr : Nat) (h : x.r.sr.headers.status ∈ statusResponse) :
    ∃ sr, x.headerSend ctx outptr =
      .next { x with r := { x.r with sr := sr, statusDone := true }, sent := x.sent ++ [.head (headerBlock ctx x.r.sr)] }
        outptr := by
  rw [Relay.headerSend, sendHead_eq ctx h]
  exact ⟨_, rfl⟩

section status

variable {ctx : Ctx} {o : ScriptOutput} {sr : SessionRequest} {x : Relay}

/-- The number of the status and the end of its line are found in the bytes that are there. -/
theorem statusReads {valid : Bytes} (w : Bytes) {pos n : Nat} (hlen : valid.length = n) (height : 8 ≤ valid.length)
    (hends : afterNumber (valid.drop pos) ≠ []) :
    pos + atoiReach ((valid ++ w).drop pos) ≤ n ∧ strtol ((valid ++ w).drop pos) = strtol (valid.drop pos) ∧
      memchr ((valid ++ w).drop 8) 0x0a (n - 8) = memchr (valid.drop 8) 0x0a (n - 8) := by
  have hposle : pos ≤ valid.length := by
    by_contra hlt
    rw [List.drop_eq_nil_of_le (by omega)] at hends
    exact hends rfl
  have hnumber : (valid ++ w).drop pos = valid.drop pos ++ w := List.drop_append_of_le_length hposle
  refine ⟨?_, by rw [hnumber, strtol_append hends], ?_⟩
  · have hle := atoiReach_append hends w
    rw [List.length_drop] at hle
    rw [hnumber]
    omega
  · rw [List.drop_append_of_le_length height, memchr, memchr,
      List.take_append_of_le_length (by rw [List.length_drop]; omega)]

/-- **The status line**: its end is not there, or the header is sent and the line skipped. -/
theorem statusPart_eq {mem w : Bytes} {status : Int} (hmem : mem = x.valid ++ w)
    (hlen : x.valid.length = x.r.inLen) (hnew : x.r.statusDone = false) (hsent : x.sent = [])
    (htext : x.valid ++ x.pipe = o.text) (hsr : x.r.sr = mkHeaderSetHttpStatus (doCgiRequest sr).sr status)
    (hcode : statusPos o.text = none → status = mkHttpOk) (hright : StatusRight o x.valid) :
    (Waiting x.valid ∧ ∃ status, x.statusPart ctx mem x.r.inLen =
      .ret { x with r := { x.r with sr := mkHeaderSetHttpStatus (doCgiRequest sr).sr status } }) ∨
    (¬ Waiting x.valid ∧ o.status.length ≤ x.r.inLen ∧ ∃ sr', x.statusPart ctx mem x.r.inLen =
      .next { x with
        r := { x.r with sr := sr', statusDone := true, inLen := x.r.inLen - o.status.length }
        sent := [.head (o.head ctx sr)] } o.status.length) := by
  obtain ⟨height, hmatch⟩ := hright
  have hv : x.valid <+: o.text := ⟨x.pipe, htext⟩
  have hpos : statusPos mem = statusPos x.valid := by rw [hmem, statusPos_append height]
  rw [Relay.statusPart, if_pos ⟨hnew, hlen ▸ height⟩, hpos]
  cases hfield : statusPos x.valid with
  | none =>
      right
      have hnil := status_eq_nil height hv hfield
      have hstatus : status = mkHttpOk := hcode (by rw [← htext, statusPos_append height, hfield])
      have hok : x.r.sr = mkHeaderSetHttpStatus (doCgiRequest sr).sr o.code := by
        rw [hsr, hstatus, ScriptOutput.code, if_pos hnil]
      have hknown : x.r.sr.headers.status ∈ statusResponse := by
        rw [hsr, hstatus]
        exact List.mem_cons_self
      obtain ⟨sr', hsend⟩ := headerSend_eq ctx 0 hknown
      rw [hok, hsent] at hsend
      refine ⟨fun h => ?_, by rw [hnil]; exact Nat.zero_le _, sr', ?_⟩
      · rw [Waiting, hfield] at h
        exact absurd h.1 Bool.false_ne_true
      · rw [hnil]
        exact hsend
  | some pos =>
      rw [hfield] at hmatch
      obtain ⟨hends, hline⟩ := hmatch
      obtain ⟨hreach, htol, hchr⟩ := statusReads w hlen height hends
      rw [← hmem] at hreach htol hchr
      simp only
      rw [look_eq hreach, htol, hsr]
      simp only [hchr]
      by_cases hend : 0x0a ∈ x.valid.drop 8
      · right
        obtain ⟨hlong, hnum, hknown⟩ := hline hend
        obtain ⟨hfound, hle⟩ := memchr_status hv hlong hend
        rw [hlen] at hfound hle
        rw [hfound, hnum]
        have hendl : 8 + (o.status.length - 9) + 1 = o.status.length := by omega
        refine ⟨fun h => h.2 hend, hle, ?_⟩
        simp only [hendl]
        let x' : Relay := { x with
          r := { x.r with
            sr := mkHeaderSetHttpStatus (doCgiRequest sr).sr o.code, inLen := x.r.inLen - o.status.length } }
        obtain ⟨sr', hsend⟩ := @headerSend_eq x' ctx o.status.length hknown
        rw [show x'.sent = [] from hsent] at hsend
        exact ⟨sr', hsend⟩
      · left
        have hnone : memchr (x.valid.drop 8) 0x0a (x.r.inLen - 8) = none := by
          rw [memchr, List.findIdx?_eq_none_iff]
          intro c hc
          rw [beq_eq_false_iff_ne]
          rintro rfl
          exact hend (List.mem_of_mem_take hc)
        rw [hnone]
        refine ⟨⟨by rw [hfield]; rfl, hend⟩, toInt (strtol (x.valid.drop pos)), rfl⟩

end status

/-! ## what is sent behind it -/

namespace Passed

variable {o : ScriptOutput} {chunked : Bool} {raw u rest : Bytes}

/-- A part of the headers. -/
theorem send_headers (h : Passed o chunked false raw (u ++ rest))
    (hrest : chunked = true → o.body.length ≤ rest.length) : Passed o chunked false (raw ++ u) rest := by
  cases h with
  | plain hchunked hraw => exact .plain hchunked (by rw [List.append_assoc, hraw])
  | headers hchunked hdone hraw _ =>
      rw [← List.append_assoc] at hraw
      have hlen := congrArg List.length hraw
      have hle := hrest hchunked
      rw [List.length_append, @List.length_append _ o.headers] at hlen
      exact .headers hchunked hdone hraw (by omega)
  | body _ hdone => contradiction

/-- The end of the headers. -/
theorem send_end (h : Passed o chunked false raw (u ++ rest))
    (hrest : chunked = true → o.body.length = rest.length) : Passed o chunked true (raw ++ u) rest := by
  cases h with
  | plain hchunked hraw => exact .plain hchunked (by rw [List.append_assoc, hraw])
  | headers hchunked _ hraw _ =>
      rw [← List.append_assoc] at hraw
      have hlen := congrArg List.length hraw
      have heq := hrest hchunked
      rw [List.length_append, @List.length_append _ o.headers] at hlen
      obtain ⟨hheaders, hbody⟩ := List.append_inj hraw (by omega)
      exact .body hchunked rfl (by rw [hheaders, List.append_nil]) .nil hbody
  | body _ hdone => contradiction

/-- A piece of the body. -/
theorem send_body (h : Passed o chunked true raw (u ++ rest)) (hne : u ≠ []) :
    Passed o chunked true (raw ++ framePiece chunked u) rest := by
  cases h with
  | plain hchunked hraw =>
      subst hchunked
      exact .plain rfl ((List.append_assoc ..).trans hraw)
  | headers _ hdone => contradiction
  | body hchunked _ hraw henc hbody =>
      subst hchunked
      refine .body rfl rfl ?_ (henc.snoc hne) (by rw [List.append_assoc, hbody])
      rw [hraw, List.append_assoc]
      rfl

end Passed

/-- A search that ends in the first bytes. -/
theorem headersEnd_append {u : Bytes} (h : (strstr u iovCrlfcrlf).isSome = true ∨ 0 ∈ u) (w : Bytes) :
    headersEnd (u ++ w) = headersEnd u ∧ strstrReach (u ++ w) iovCrlfcrlf ≤ u.length := by
  cases hfound : strstr u iovCrlfcrlf with
  | some p =>
      have happend := strstr_append (w := w) hfound (List.cons_ne_nil _ _)
      have hend := strstr_end_le hfound (List.cons_ne_nil _ _)
      rw [headersEnd, headersEnd, strstrReach, happend, hfound]
      exact ⟨rfl, hend⟩
  | none =>
      have h0 : 0 ∈ u := by
        rcases h with h | h
        · rw [hfound] at h
          exact absurd h Bool.false_ne_true
        · exact h
      have hlt := strlen_lt_of_mem h0
      rw [strstrReach, strstr_append_of_mem h0, hfound, strlen_append_of_mem h0]
      refine ⟨?_, hlt⟩
      rw [headersEnd, headersEnd]
      simp only [strstr_append_of_mem h0]

theorem headersEnd_le {u : Bytes} {len : Nat} (h : headersEnd u = some len) : len ≤ u.length := by
  unfold headersEnd at h
  split at h
  · next p hp =>
      cases h
      exact strstr_end_le hp (List.cons_ne_nil _ _)
  · split at h
    · next p hp =>
        cases h
        exact strstr_end_le hp (List.cons_ne_nil _ _)
    · obtain ⟨p, hp, rfl⟩ := Option.map_eq_some_iff.mp h
      exact strstr_end_le hp (List.cons_ne_nil _ _)

theorem writeBuf_eq {x : Relay} {mem pre u w : Bytes} (hmem : mem = pre ++ (u ++ w)) {valid : Nat}
    (hvalid : pre.length + u.length ≤ valid) :
    x.writeBuf mem valid pre.length u.length = { x with sent := x.sent ++ [.bytes u] } := by
  rw [Relay.writeBuf, look_eq hvalid, hmem, List.drop_left, List.take_left]
  rfl

section parts

variable {o : ScriptOutput} {x : Relay} {mem pre u w raw : Bytes} {block : HeaderBlock}

/-- **The headers**: as many as are there, or up to where their end is found. -/
theorem headersPart_eq (hmem : mem = pre ++ (u ++ w)) (hlen : x.r.inLen = u.length) (hsmall : u.length < 2 ^ 32)
    (hnew : x.r.allHeadersDone = false) (hsearch : (strstr u iovCrlfcrlf).isSome = true ∨ 0 ∈ u) :
    x.headersPart mem (pre.length + u.length) pre.length =
      match headersEnd u with
      | none => .ret { x with
          r := { x.r with inLen := 0 }, sent := x.sent ++ [.bytes u], socketMode := .sleep }
      | some len =>
          let x' := { x with
            r := { x.r with inLen := u.length - len, allHeadersDone := true }
            sent := x.sent ++ [.bytes (u.take len)] }
          if u.length - len = 0 then .ret { x' with socketMode := .sleep } else .next x' (pre.length + len) := by
  obtain ⟨hend, hreach⟩ := headersEnd_append hsearch w
  have hdrop : mem.drop pre.length = u ++ w := by rw [hmem, List.drop_left]
  rw [Relay.headersPart, if_neg (by rw [hnew]; exact Bool.false_ne_true)]
  simp only [hdrop, hend]
  rw [look_eq (by omega), hlen]
  cases hfound : headersEnd u with
  | none =>
      simp only
      rw [writeBuf_eq hmem le_rfl]
  | some len =>
      have hle := headersEnd_le hfound
      have htake : (u.take len).length = len := List.length_take_of_le hle
      have hmem' : mem = pre ++ (u.take len ++ (u.drop len ++ w)) := by
        rw [hmem, ← List.append_assoc (u.take len), List.take_append_drop]
      have hwrite := @writeBuf_eq x mem pre (u.take len) (u.drop len ++ w) hmem' (pre.length + u.length) (by omega)
      rw [htake] at hwrite
      simp only
      rw [hwrite]
      have hsub : (u.length + 2 ^ 32 - len) % 2 ^ 32 = u.length - len := by omega
      simp only [hlen, hsub]

/-- **The body**: a piece of it. -/
theorem bodyPart_eq (hmem : mem = pre ++ (u ++ w)) (hlen : x.r.inLen = u.length) {valid : Nat}
    (hvalid : pre.length + u.length ≤ valid) :
    x.bodyPart mem valid pre.length = { x with
      r := { x.r with inLen := 0 }
      fdMode := .read, socketMode := .sleep, sent := x.sent ++ pieceWrites x.r.chunked u } := by
  unfold Relay.bodyPart
  cases hchunked : x.r.chunked with
  | false =>
      simp only [Bool.false_eq_true, if_false, hlen]
      rw [writeBuf_eq hmem hvalid]
      simp only [hchunked, Bool.false_eq_true, if_false]
      rfl
  | true =>
      simp only [if_true]
      rw [hlen, show (x.write (printfX u.length ++ crlf)).r.inLen = u.length from hlen, writeBuf_eq hmem hvalid]
      simp only [Relay.write, hchunked, if_true, List.append_assoc]
      rfl

end parts

theorem Passed.start {o : ScriptOutput} {rest : Bytes} (chunked : Bool) (h : rest = o.headers ++ o.body) :
    Passed o chunked false [] rest := by
  cases chunked with
  | false => exact .plain rfl h
  | true => exact .headers rfl rfl h (Nat.zero_le _)

/-- Everything in the buffer was sent. -/
structure Emptied (o : ScriptOutput) (block : HeaderBlock) (x x' : Relay) : Prop extends Keeps x x' where
  inLen : x'.r.inLen = 0
  statusDone : x'.r.statusDone = true
  passed : ∃ raw, received x'.sent = some (block, raw) ∧ Passed o x'.r.chunked x'.r.allHeadersDone raw x'.pipe

theorem Emptied.trans {o : ScriptOutput} {block : HeaderBlock} {x y z : Relay} (h : Keeps x y)
    (h' : Emptied o block y z) : Emptied o block x z :=
  ⟨h.trans h'.toKeeps, h'.inLen, h'.statusDone, h'.passed⟩

section emptied

variable {o : ScriptOutput} {x : Relay} {mem pre u w raw : Bytes} {block : HeaderBlock}

theorem bodyPart_emptied (hmem : mem = pre ++ (u ++ w)) (hlen : x.r.inLen = u.length) {valid : Nat}
    (hvalid : pre.length + u.length ≤ valid) (hstatus : x.r.statusDone = true) (hdone : x.r.allHeadersDone = true)
    (hrec : received x.sent = some (block, raw)) (hpassed : Passed o x.r.chunked true raw (u ++ x.pipe))
    (hne : u ≠ []) : Emptied o block x (x.bodyPart mem valid pre.length) := by
  rw [bodyPart_eq hmem hlen hvalid]
  refine ⟨⟨rfl, rfl, rfl, rfl, rfl, rfl⟩, rfl, hstatus, _, received_pieceWrites hrec _ _, ?_⟩
  rw [show x.r.allHeadersDone = true from hdone]
  exact hpassed.send_body hne

/-- What `_mkp_event_write` does once the header is out. -/
theorem rest_emptied (hmem : mem = pre ++ (u ++ w)) (hlen : x.r.inLen = u.length) (hsmall : u.length < 2 ^ 32)
    (hstatus : x.r.statusDone = true) (hrec : received x.sent = some (block, raw))
    (hpassed : Passed o x.r.chunked x.r.allHeadersDone raw (u ++ x.pipe))
    (hne : x.r.allHeadersDone = true → u ≠ [])
    (hright : x.r.allHeadersDone = false → HeadersRight o x.r.chunked x.pipe u) :
    Emptied o block x (match x.headersPart mem (pre.length + u.length) pre.length with
      | .ret x => x
      | .next x outptr => x.bodyPart mem (pre.length + u.length) outptr) := by
  cases hdone : x.r.allHeadersDone with
  | true =>
      rw [hdone] at hpassed
      rw [Relay.headersPart, if_pos hdone]
      exact bodyPart_emptied hmem hlen le_rfl hstatus hdone hrec hpassed (hne hdone)
  | false =>
      rw [hdone] at hpassed
      obtain ⟨hsearch, hplace⟩ := hright hdone
      rw [headersPart_eq hmem hlen hsmall hdone hsearch]
      cases hend : headersEnd u with
      | none =>
          simp only [hend] at hplace ⊢
          refine ⟨⟨rfl, rfl, rfl, rfl, rfl, rfl⟩, rfl, hstatus, _, received_snoc hrec u, ?_⟩
          rw [show x.r.allHeadersDone = false from hdone]
          exact hpassed.send_headers hplace
      | some len =>
          have hle := headersEnd_le hend
          have hplace' : x.r.chunked = true → o.body.length = (u.drop len ++ x.pipe).length := by
            intro hchunked
            have heq := hplace hchunked
            simp only [hend] at heq
            rw [List.length_append, List.length_drop]
            omega
          have hsplit : u ++ x.pipe = u.take len ++ (u.drop len ++ x.pipe) := by
            rw [← List.append_assoc, List.take_append_drop]
          rw [hsplit] at hpassed
          have hafter := hpassed.send_end hplace'
          have hrec' := received_snoc hrec (u.take len)
          simp only
          by_cases hall : u.length - len = 0
          · rw [if_pos hall]
            have hdrop : u.drop len = [] := List.drop_eq_nil_of_le (by omega)
            rw [hdrop] at hafter
            exact ⟨⟨rfl, rfl, rfl, rfl, rfl, rfl⟩, hall, hstatus, _, hrec', hafter⟩
          · rw [if_neg hall]
            have hmem' : mem = (pre ++ u.take len) ++ (u.drop len ++ w) := by
              rw [hmem, List.append_assoc, ← List.append_assoc (u.take len), List.take_append_drop]
            have hpre : (pre ++ u.take len).length = pre.length + len := by
              rw [List.length_append, List.length_take_of_le hle]
            have hrest : (u.drop len).length = u.length - len := List.length_drop
            have hvalid : (pre ++ u.take len).length + (u.drop len).length ≤ pre.length + u.length := by omega
            have hne' : u.drop len ≠ [] := by
              rw [← List.length_pos_iff, hrest]
              omega
            have hbody := bodyPart_emptied (x := { x with
                r := { x.r with inLen := u.length - len, allHeadersDone := true }
                sent := x.sent ++ [.bytes (u.take len)] })
              hmem' hrest.symm hvalid hstatus rfl hrec' hafter hne'
            rw [hpre] at hbody
            refine .trans ?_ hbody
            exact ⟨rfl, rfl, rfl, rfl, rfl, rfl⟩

end emptied

/-! ## the events -/

section events

variable {ctx : Ctx} {o : ScriptOutput} {sr : SessionRequest} {x : Relay}

theorem Inv.valid_length (h : Inv ctx o sr x) : x.valid.length = x.r.inLen := by
  rw [Relay.valid, List.length_take, h.length, Nat.min_eq_left h.bound]

theorem mem_eq (x : Relay) (beyond : Bytes) :
    x.r.inBuf ++ beyond = x.valid ++ (x.r.inBuf.drop x.r.inLen ++ beyond) := by
  rw [Relay.valid, ← List.append_assoc, List.take_append_drop]

/-- **A write event**: the status line is waited for, or the buffer is sent. -/
theorem eventWrite_cases (h : Inv ctx o sr x) (hlive : x.ended = false) (hright : WriteRight o x)
    (hpos : 0 < x.r.inLen) (beyond : Bytes) :
    (x.r.statusDone = false ∧ Waiting x.valid ∧ ∃ status, x.eventWrite ctx beyond =
      { x with r := { x.r with sr := mkHeaderSetHttpStatus (doCgiRequest sr).sr status } }) ∨
    Emptied o (o.head ctx sr) x (x.eventWrite ctx beyond) := by
  obtain ⟨hstatus, hheaders⟩ := hright hpos
  have hlen := h.valid_length
  have hbound := h.bound
  have hmem := mem_eq x beyond
  have hsmall : pathLen < 2 ^ 32 := by decide
  rw [Relay.eventWrite, if_neg hpos.ne']
  simp only
  cases h.stream hlive with
  | waiting hnew hnohead hsent htext hsr hcode =>
      rcases @statusPart_eq ctx o sr x _ _ _ hmem hlen hnew hsent htext hsr hcode (hstatus hnew) with
        ⟨hwait, status, hpart⟩ | ⟨hwait, hle, sr', hpart⟩
      · left
        rw [hpart]
        exact ⟨hnew, hwait, status, rfl⟩
      · right
        have hplace := hheaders (fun hc => hwait hc.2) hnohead
        rw [if_neg (by rw [hnew]; exact Bool.false_ne_true)] at hplace
        rw [hpart]
        have hpre : (x.valid.take o.status.length).length = o.status.length :=
          List.length_take_of_le (by omega)
        have hrest : (x.valid.drop o.status.length).length = x.r.inLen - o.status.length := by
          rw [List.length_drop, hlen]
        have hsum : o.status.length + (x.valid.drop o.status.length).length = x.r.inLen := by omega
        have hsplit : x.r.inBuf ++ beyond = x.valid.take o.status.length ++
            (x.valid.drop o.status.length ++ (x.r.inBuf.drop x.r.inLen ++ beyond)) := by
          rw [hmem, ← List.append_assoc (x.valid.take _), List.take_append_drop]
        have hleft : x.valid.drop o.status.length ++ x.pipe = o.headers ++ o.body := by
          rw [← List.drop_append_of_le_length (by omega), htext, ScriptOutput.text, List.drop_left]
        have hne : x.r.allHeadersDone = true → x.valid.drop o.status.length ≠ [] := by
          intro hdone
          rw [hnohead] at hdone
          contradiction
        have hemptied := rest_emptied (o := o) (x := { x with
            r := { x.r with sr := sr', statusDone := true, inLen := x.r.inLen - o.status.length }
            sent := [.head (o.head ctx sr)] })
          hsplit hrest.symm (by omega) rfl (received_head _)
          (by rw [show x.r.allHeadersDone = false from hnohead]; exact .start _ hleft) hne (fun _ => hplace)
        rw [hpre, hsum] at hemptied
        refine .trans ?_ hemptied
        exact ⟨rfl, rfl, rfl, rfl, rfl, rfl⟩
  | sending hdone hrec hpassed =>
      right
      have hskip : x.statusPart ctx (x.r.inBuf ++ beyond) x.r.inLen = .next x 0 := by
        rw [Relay.statusPart, if_neg]
        rw [hdone]
        exact fun hc => absurd hc.1.symm Bool.false_ne_true
      rw [hskip]
      have hplace := hheaders (fun hc => by rw [hdone] at hc; exact absurd hc.1.symm Bool.false_ne_true)
      rw [if_pos hdone, List.drop_zero] at hplace
      rw [← h.chunked] at hpassed
      have hne : x.r.allHeadersDone = true → x.valid ≠ [] := by
        intro _
        rw [← List.length_pos_iff, hlen]
        exact hpos
      have hfront : x.r.inBuf ++ beyond = [] ++ (x.valid ++ (x.r.inBuf.drop x.r.inLen ++ beyond)) := hmem
      have hemptied := rest_emptied hfront hlen.symm (by omega) hdone hrec hpassed hne hplace
      rw [List.length_nil, Nat.zero_add, hlen] at hemptied
      exact hemptied

/-- Nothing is left in the buffer, and the response goes on. -/
theorem Emptied.inv {x' : Relay} (h : Inv ctx o sr x) (hlive : x.ended = false)
    (hemptied : Emptied o (o.head ctx sr) x x') : Inv ctx o sr x' := by
  obtain ⟨raw, hrec, hpassed⟩ := hemptied.passed
  refine ⟨hemptied.aborted.trans h.running, hemptied.strayed.trans h.inside, hemptied.chunked.trans h.chunked,
    by rw [hemptied.inBuf, h.length], by rw [hemptied.inLen]; exact Nat.zero_le _, fun _ => ?_, fun hended => ?_⟩
  · refine .sending hemptied.statusDone hrec ?_
    rw [Relay.valid, hemptied.inLen, List.take_zero, List.nil_append, ← h.chunked, ← hemptied.chunked]
    exact hpassed
  · rw [hemptied.ended, hlive] at hended
    contradiction

theorem Inv.eventWrite (h : Inv ctx o sr x) (hlive : x.ended = false) (hright : WriteRight o x) (beyond : Bytes) :
    Inv ctx o sr (x.eventWrite ctx beyond) := by
  by_cases hpos : 0 < x.r.inLen
  · rcases eventWrite_cases h hlive hright hpos beyond with ⟨hnew, hwait, status, heq⟩ | hemptied
    · rw [heq]
      refine ⟨h.running, h.inside, h.chunked, h.length, h.bound, fun _ => ?_, h.whole⟩
      cases h.stream hlive with
      | waiting _ hnohead hsent htext _ _ =>
          refine .waiting hnew hnohead hsent htext rfl fun hnone => ?_
          have height := (hright hpos).1 hnew
          rw [← htext, statusPos_append height.1] at hnone
          have hsome := hwait.1
          rw [hnone] at hsome
          exact absurd hsome Bool.false_ne_true
      | sending hdone =>
          rw [hnew] at hdone
          contradiction
    · exact hemptied.inv h hlive
  · rw [Relay.eventWrite, if_pos (by omega)]
    exact h

theorem Inv.eventRead (h : Inv ctx o sr x) (hlive : x.ended = false) {n : Nat} (hposs : x.Possible (.read n)) :
    Inv ctx o sr (x.eventRead n) := by
  obtain ⟨-, hn, hpipe, hroom⟩ := hposs
  have hbound := h.bound
  unfold Relay.eventRead
  by_cases hfull : pathLen - x.r.inLen < 1
  · rw [if_pos hfull]
    refine ⟨h.running, h.inside, h.chunked, h.length, h.bound, fun _ => ?_, h.whole⟩
    cases h.stream hlive with
    | waiting hnew hnohead hsent htext hsr hcode => exact .waiting hnew hnohead hsent htext hsr hcode
    | sending hdone hrec hpassed => exact .sending hdone hrec hpassed
  · rw [if_neg hfull]
    have hle := hroom (by omega)
    have hread : (x.pipe.take n).length = n := List.length_take_of_le hpipe
    have hfits : x.r.inLen + (x.pipe.take n).length ≤ x.r.inBuf.length := by
      rw [hread, h.length]
      omega
    have hvalid : (fillAt x.r.inBuf x.r.inLen (x.pipe.take n)).take (x.r.inLen + n) ++ x.pipe.drop n =
        x.valid ++ x.pipe := by
      have htake := take_fillAt (Nat.le_of_add_right_le hfits) (x.pipe.take n)
      rw [hread] at htake
      rw [htake, List.append_assoc, List.take_append_drop]
      rfl
    refine ⟨h.running, h.inside, h.chunked, (length_fillAt hfits).trans h.length, ?_, fun _ => ?_, h.whole⟩
    · change x.r.inLen + n ≤ pathLen
      omega
    · cases h.stream hlive with
      | waiting hnew hnohead hsent htext hsr hcode =>
          exact .waiting hnew hnohead hsent (hvalid.trans htext) hsr hcode
      | sending hdone hrec hpassed =>
          refine .sending hdone hrec ?_
          rw [← hvalid] at hpassed
          exact hpassed

/-- What is left when nothing is left. -/
theorem Passed.whole {o : ScriptOutput} {chunked done : Bool} {raw : Bytes} (h : Passed o chunked done raw []) :
    ∃ enc, raw = o.headers ++ enc ∧ Framed chunked enc o.body := by
  cases h with
  | plain hchunked hraw =>
      subst hchunked
      exact ⟨o.body, by rw [← hraw, List.append_nil], rfl⟩
  | headers hchunked _ hraw hle =>
      subst hchunked
      rw [List.append_nil] at hraw
      have hnil : o.body = [] := by
        rw [← List.length_eq_zero_iff]
        have hlen := congrArg List.length hraw
        rw [List.length_append] at hlen
        omega
      rw [hnil, List.append_nil] at hraw
      exact ⟨[], by rw [hraw, List.append_nil], by rw [hnil]; exact .nil true⟩
  | body hchunked _ hraw henc hbody =>
      subst hchunked
      rw [List.append_nil] at hbody
      exact ⟨_, hraw, hbody ▸ henc⟩

theorem text_ne_nil (o : ScriptOutput) : o.text ≠ [] := by
  intro hnil
  have hheaders : o.headers = [] := (List.append_eq_nil_iff.mp (List.append_eq_nil_iff.mp hnil).2).1
  have hempty : ∀ t, HeaderText t → t ≠ [] := by
    intro t ht
    cases ht <;> simp [crlf]
  exact hempty _ o.headers_text hheaders

theorem Inv.hangup (h : Inv ctx o sr x) (hlive : x.ended = false) {beyond : Bytes}
    (hright : EventRight o x (.hangup beyond)) : Inv ctx o sr (x.hangup ctx beyond) := by
  obtain ⟨⟨hpipe, hline⟩, hright⟩ := hright
  have hinv := h.eventWrite hlive hright beyond
  have hsending : ∃ raw, received (x.eventWrite ctx beyond).sent = some (o.head ctx sr, raw) ∧
      Passed o (onHttp11 sr) (x.eventWrite ctx beyond).r.allHeadersDone raw [] := by
    by_cases hpos : 0 < x.r.inLen
    · rcases eventWrite_cases h hlive hright hpos beyond with ⟨hnew, hwait, -⟩ | hemptied
      · rcases hline with hdone | hnot
        · rw [hnew] at hdone
          contradiction
        · exact absurd hwait hnot
      · obtain ⟨raw, hrec, hpassed⟩ := hemptied.passed
        rw [hemptied.pipe, hpipe, hemptied.chunked, h.chunked] at hpassed
        exact ⟨raw, hrec, hpassed⟩
    · have hzero : x.r.inLen = 0 := by omega
      have hleft : x.valid ++ x.pipe = [] := by rw [Relay.valid, hzero, hpipe]; rfl
      rw [Relay.eventWrite, if_pos hzero]
      cases h.stream hlive with
      | waiting _ _ _ htext _ _ => exact absurd (hleft.symm.trans htext).symm (text_ne_nil o)
      | sending _ hrec hpassed =>
          rw [hleft] at hpassed
          exact ⟨_, hrec, hpassed⟩
  obtain ⟨raw, hrec, hpassed⟩ := hsending
  obtain ⟨enc, rfl, hframed⟩ := hpassed.whole
  have hclosed := hframed.close
  unfold Relay.hangup
  simp only
  rw [if_neg (by rw [hinv.running]; exact Bool.false_ne_true), hinv.chunked]
  cases hhttp : onHttp11 sr with
  | false =>
      rw [hhttp] at hclosed
      rw [if_neg Bool.false_ne_true]
      refine ⟨hinv.running, hinv.inside, hinv.chunked, hinv.length, hinv.bound, fun hc => ?_, fun _ => ?_⟩
      · contradiction
      · exact ⟨enc, hrec, by rw [hhttp]; rwa [frameEnd, if_neg Bool.false_ne_true, List.append_nil] at hclosed⟩
  | true =>
      rw [hhttp] at hclosed
      rw [if_pos rfl]
      refine ⟨hinv.running, hinv.inside, hinv.chunked, hinv.length, hinv.bound, fun hc => ?_, fun _ => ?_⟩
      · contradiction
      · refine ⟨enc ++ lastChunk, ?_, by rw [hhttp]; exact hclosed⟩
        rw [← List.append_assoc]
        exact received_snoc hrec lastChunk

theorem Inv.start (o : ScriptOutput) (hsr : sr.headers.status = 0) : Inv ctx o sr (start o sr) := by
  refine ⟨rfl, rfl, ?_, ?_, ?_, fun _ => ?_, fun hc => ?_⟩
  · simp only [Cgi.start, doCgiRequest, onHttp11, hsr]
    cases sr.protocol.isOld <;> rfl
  · simp only [Cgi.start, doCgiRequest, cgiReqCreate]
    split <;> exact List.length_replicate
  · simp only [Cgi.start, doCgiRequest, cgiReqCreate]
    split <;> exact Nat.zero_le _
  · refine .waiting ?_ ?_ rfl ?_ ?_ fun _ => rfl
    all_goals
      simp only [Cgi.start, doCgiRequest, cgiReqCreate, Relay.valid]
      split <;> rfl
  · contradiction

/-- **One step** from the invariant under the condition. -/
theorem Inv.step (h : Inv ctx o sr x) {e : Event} (hright : EventRight o x e) {x' : Relay} (hstep : Step ctx x e x') :
    Inv ctx o sr x' := by
  unfold Step Relay.step at hstep
  split at hstep
  · next hcan =>
      cases hstep
      obtain ⟨⟨hlive, -⟩, hposs⟩ := hcan
      cases e with
      | read n => exact h.eventRead hlive hposs
      | write beyond => exact h.eventWrite hlive hright beyond
      | hangup beyond => exact h.hangup hlive hright
  · contradiction

theorem Inv.delivers (h : Inv ctx o sr x) : Delivers ctx o sr x := by
  refine ⟨h.running, h.inside, fun hlive => ?_, h.whole⟩
  cases h.stream hlive with
  | waiting _ _ hsent => exact .inl hsent
  | sending hdone hrec hpassed =>
      refine .inr ⟨_, hrec, ?_⟩
      cases hpassed with
      | plain hchunked hraw =>
          rcases List.prefix_or_prefix_of_prefix ⟨_, hraw⟩ (List.prefix_append o.headers o.body) with hpre | ⟨b, hb⟩
          · exact .inl hpre
          · right
            rw [← hb, List.append_assoc, List.append_cancel_left_eq] at hraw
            refine ⟨b, b, hb.symm, ?_, ⟨_, hraw⟩⟩
            rw [hchunked]
            rfl
      | headers _ _ hraw hle =>
          left
          exact List.prefix_of_prefix_length_le ⟨_, hraw⟩ (List.prefix_append o.headers o.body) hle
      | body hchunked _ hraw henc hbody =>
          right
          refine ⟨_, _, hraw, ?_, ⟨_, hbody⟩⟩
          rw [hchunked]
          exact henc

end events

/-! ## two scripts -/

/-- Headers that do not start like a status line. -/
theorem first_line_of_not_prefix {headers : Bytes} (hstatus : ¬ statusField <+: headers)
    (hhttp : ¬ httpField ++ [0x2f] <+: headers) : ∀ l, StatusLine l → ¬ l <+: headers := by
  rintro l ⟨text, rfl, -, hfield⟩ hl
  have htext : text <+: headers := (List.prefix_append text _).trans hl
  rcases hfield with hfield | hfield
  · exact hstatus (hfield.trans htext)
  · exact hhttp (hfield.trans htext)

/-- A script that is not found. -/
def notFoundScript : ScriptOutput where
  status := ascii "Status: 404 Not Found\r".toList ++ [0x0a]
  headers := ascii "Content-Type: text/plain\r".toList ++ 0x0a :: crlf
  body := ascii "gone".toList
  status_line := .inr ⟨_, rfl, by decide, .inl (by decide)⟩
  headers_text := .line (by decide) (by decide) (by decide) .crlf
  first_line := fun h => absurd h (by decide)

/-- A script without a status line. -/
def plainScript : ScriptOutput where
  status := []
  headers := ascii "Content-Type: text/plain\r".toList ++ 0x0a :: crlf
  body := ascii "here".toList
  status_line := .inl rfl
  headers_text := .line (by decide) (by decide) (by decide) .crlf
  first_line := fun _ => first_line_of_not_prefix (by decide) (by decide)

def scriptRequest : SessionRequest := { protocol := .http11 }

/-- Read in two parts, the first with the header and some of the body. -/
def twoReads : List Event := [.read 53, .write [], .read 2, .write [], .hangup []]

/-- The first byte goes out before anything else is there. -/
def earlyWrite : List Event := [.read 1, .write [], .read 31, .write [], .hangup []]

end Monkey.Cgi
