import Monkey.Http.Announce

/-!
# Monkey.Http.Framing

When the header of an answer announces the bytes that follow it (`Plan.Framed`), for every plan of
one header that leaves the connection open.

The length is a `long` that is printed as an `int`, and what is sent is a page or a part of a
file.  The two agree for the pages of the server itself; for a file they may not, when it has
two gigabytes or more or when the range asked for lies outside it.  The condition is on the
plan, that is on what is known before anything is written.
-/

namespace Monkey

/-! ## the header and the page of a plan -/

/-- A length as the header prints it. -/
def printedLength (n : Int) : Option Int := if n ≥ 0 then some (toInt n) else none

/-- The number that a client takes it for. -/
def clientLength (n : Int) : Option Nat := (printedLength n).bind fun n => if 0 ≤ n then some n.toNat else none

/-- The status that posted data is refused with. -/
def dataStatus (ctx : Ctx) : Int :=
  let length := mkMethodValidateContentLength ctx.cs.body ctx.cs.bodyLength
  if length = -1 then mkClientLengthRequired
  else if length ≤ 0 then mkClientBadRequest
  else if length ≥ ctx.cs.bodySize then mkClientRequestEntityTooLarge
  else mkClientBadRequest

/-- The length that an error response announces. -/
def errorAnnounced (sys : Sys) (status : Int) (sr : SessionRequest) : Int :=
  match errorPageFile sys status sr with
  | some page => page.2.size
  | none => (defaultPage status sr).elim sr.headers.contentLength fun p => p.length

/-- The page of an error response that is not a file. -/
def errorText (sys : Sys) (status : Int) (sr : SessionRequest) : Bytes :=
  if (errorPageFile sys status sr).isSome ∨ sr.method = .head then [] else (defaultPage status sr).getD []

/-- The status of an answer. -/
def Plan.answerStatus (ctx : Ctx) : Plan → Int
  | .silent _ _ => 0
  | .error status _ | .refuse _ status _ => status
  | .noHome _ => mkClientNotFound
  | .noData _ => dataStatus ctx
  | .redirect _ => mkRedirMoved
  | .notModified _ => mkNotModified
  | .send sr => sr.headers.status

/-- The length that an answer announces. -/
def Plan.announced (ctx : Ctx) : Plan → Int
  | .error status sr | .refuse _ status sr => errorAnnounced ctx.sys status sr
  | .noData sr => errorAnnounced ctx.sys (dataStatus ctx) sr
  | .redirect _ => 0
  | .silent _ sr | .noHome sr | .notModified sr | .send sr => sr.headers.contentLength

/-- The page of an answer that is not a file. -/
def Plan.text (ctx : Ctx) : Plan → Bytes
  | .error status sr | .refuse _ status sr => errorText ctx.sys status sr
  | .noData sr => errorText ctx.sys (dataStatus ctx) sr
  | _ => []

/-- The size of the file that an answer sends a part of. -/
def Plan.fileSize (ctx : Ctx) : Plan → Int
  | .error status sr | .refuse _ status sr => (errorPageFile ctx.sys status sr).elim 0 fun page => page.2.size
  | .send sr => sr.fileInfo.size
  | _ => 0

/-- The bytes behind the header of an answer. -/
def Plan.body (ctx : Ctx) (file : Bytes) (plan : Plan) : Bytes :=
  match plan.window ctx with
  | none => plan.text ctx
  | some (offset, count) => (file.drop offset.toNat).take count.toNat

/-- The bytes of a page or a part of a file. -/
def Out.wire (file : Bytes) : Out → Bytes
  | .page text => text
  | .file offset count => (file.drop offset.toNat).take count.toNat
  | _ => []

def Out.isFile : Out → Bool
  | .file _ _ => true
  | _ => false

/-! ## the condition -/

/-- A client finds the end of an error response: that of a customized page below two gigabytes if
it takes a body for one, that of a default page, or none. -/
def ErrorFramed (sys : Sys) (status : Int) (sr : SessionRequest) : Prop :=
  match errorPageFile sys status sr with
  | some page => page.2.size = 0 ∨ (sr.method ≠ .head ∧ bodiless status = false ∧ page.2.size < 2 ^ 31)
  | none => sr.method = .head ∨ bodiless status = true ∨ ∃ p, defaultPage status sr = some p ∧ p.length < 2 ^ 31

/-- The part of a file that a range asks for has the length that is announced. -/
def RangeForm.Framed (size : Int) : RangeForm → Prop
  | .suffix _ => True
  | .startingAt first => 0 ≤ first ∧ size - first < 2 ^ 31
  | .between first last => (0 ≤ first ∧ last < size ∧ last - first + 1 < 2 ^ 31) ∨
      -- a first number beyond an int; the whole file is sent
      (first < -1 ∧ toInt (cAbs (toInt (last - first)) + 1) = size)

/-- A client finds the end of a file. -/
def SendFramed (cfg : Config) (sr : SessionRequest) : Prop :=
  sr.method = .head ∨
    match rangeAsked cfg sr with
    | none => sr.fileInfo.size < 2 ^ 31
    | some form => form.Framed sr.fileInfo.size

instance (size : Int) (form : RangeForm) : Decidable (form.Framed size) :=
  match form with
  | .suffix _ => .isTrue trivial
  | .startingAt _ => inferInstanceAs (Decidable (_ ∧ _))
  | .between _ _ => inferInstanceAs (Decidable (_ ∨ _))

instance (cfg : Config) (sr : SessionRequest) : Decidable (SendFramed cfg sr) :=
  match h : rangeAsked cfg sr with
  | none => decidable_of_iff (sr.method = .head ∨ sr.fileInfo.size < 2 ^ 31) (by simp only [SendFramed, h])
  | some form => decidable_of_iff (sr.method = .head ∨ form.Framed sr.fileInfo.size) (by simp only [SendFramed, h])

instance (sys : Sys) (status : Int) (sr : SessionRequest) : Decidable (ErrorFramed sys status sr) :=
  match h : errorPageFile sys status sr with
  | some page =>
      decidable_of_iff (page.2.size = 0 ∨ (sr.method ≠ .head ∧ bodiless status = false ∧ page.2.size < 2 ^ 31))
        (by simp only [ErrorFramed, h])
  | none =>
      decidable_of_iff (sr.method = .head ∨ bodiless status = true ∨
        ((defaultPage status sr).any fun p => p.length < 2 ^ 31) = true)
        (by simp [ErrorFramed, h, Option.any_eq_true])

/-- A client finds the end of an answer. -/
def Plan.Framed (ctx : Ctx) : Plan → Prop
  | .silent _ _ | .noHome _ => False
  | .error status sr | .refuse _ status sr => ErrorFramed ctx.sys status sr
  | .noData sr => ErrorFramed ctx.sys (dataStatus ctx) sr
  | .redirect _ | .notModified _ => True
  | .send sr => SendFramed ctx.cfg sr

instance (ctx : Ctx) (plan : Plan) : Decidable (plan.Framed ctx) :=
  match plan with
  | .silent _ _ | .noHome _ => .isFalse id
  | .error status sr | .refuse _ status sr => inferInstanceAs (Decidable (ErrorFramed ctx.sys status sr))
  | .noData sr => inferInstanceAs (Decidable (ErrorFramed ctx.sys (dataStatus ctx) sr))
  | .redirect _ | .notModified _ => .isTrue trivial
  | .send sr => inferInstanceAs (Decidable (SendFramed ctx.cfg sr))

/-! ## the part of a file -/

theorem clientLength_eq_some {n : Int} {k : Nat} : clientLength n = some k ↔ 0 ≤ n ∧ toInt n = k := by
  rw [clientLength, printedLength]
  by_cases hn : n ≥ 0
  · rw [if_pos hn, Option.bind_some]
    by_cases hpos : 0 ≤ toInt n
    · rw [if_pos hpos, Option.some.injEq]
      omega
    · rw [if_neg hpos]
      constructor
      · rintro ⟨⟩
      · rintro ⟨-, heq⟩
        omega
  · rw [if_neg hn]
    constructor
    · rintro ⟨⟩
    · rintro ⟨hpos, -⟩
      omega

/-- A length is announced as it is exactly if it is an `int`. -/
theorem clientLength_self {n : Nat} : clientLength n = some n ↔ (n : Int) < 2 ^ 31 := by
  rw [clientLength_eq_some, toInt_eq_self_iff]
  omega

/-- The window of a file that is sent. -/
def sendWindow (cfg : Config) (sr : SessionRequest) : Int × Int :=
  let sr := (mkHttpRangeSet cfg sr.fileInfo.size sr).2
  (sr.bytesOffset, sr.bytesToSend)

/-- What is sent of a file. -/
def sentPart (cfg : Config) (file : Bytes) (sr : SessionRequest) : Bytes :=
  if sr.headers.contentLength = 0 then []
  else (file.drop (sendWindow cfg sr).1.toNat).take (sendWindow cfg sr).2.toNat

theorem length_part (file : Bytes) (offset count : Int) :
    ((file.drop offset.toNat).take count.toNat).length = min count.toNat (file.length - offset.toNat) := by
  rw [List.length_take, List.length_drop]

section

variable {cfg : Config} {sr : SessionRequest} {file : Bytes}

/-- A whole file. -/
theorem sent_whole (hsize : (file.length : Int) = sr.fileInfo.size)
    (hwindow : sendWindow cfg sr = (0, sr.fileInfo.size)) (hcl : sr.headers.contentLength ≠ 0) :
    (sentPart cfg file sr).length = file.length := by
  rw [sentPart, if_neg hcl, hwindow, length_part]
  simp only
  omega

theorem whole_framed_iff (hasked : rangeAsked cfg sr = none) (hann : sr.Announces cfg)
    (hsize : (file.length : Int) = sr.fileInfo.size) :
    clientLength sr.headers.contentLength = some (sentPart cfg file sr).length ↔ sr.fileInfo.size < 2 ^ 31 := by
  rw [SessionRequest.Announces, hasked] at hann
  obtain ⟨hr0, hr1, hcl⟩ := hann
  have hwindow : sendWindow cfg sr = (0, sr.fileInfo.size) := by
    rw [sendWindow, mkHttpRangeSet]
    split
    · rw [hr0, hr1]
      rfl
    · rfl
  have hlength : (sentPart cfg file sr).length = file.length := by
    by_cases hzero : sr.headers.contentLength = 0
    · rw [sentPart, if_pos hzero, List.length_nil]
      omega
    · exact sent_whole hsize hwindow hzero
  rw [hlength, hcl, ← hsize]
  exact clientLength_self

/-- The window that a range sets, unless it is refused. -/
theorem sendWindow_of_asked {form : RangeForm} (hasked : rangeAsked cfg sr = some form) :
    sendWindow cfg sr = rangeWindow sr.fileInfo.size sr.headers.ranges0 sr.headers.ranges1 ∧
      ((mkHttpRangeSet cfg sr.fileInfo.size sr).1 = 0 →
        (sendWindow cfg sr).1 ≤ sr.fileInfo.size ∧ (sendWindow cfg sr).2 ≤ sr.fileInfo.size) ∧ sr.method = .get := by
  rw [rangeAsked] at hasked
  split at hasked
  · next hget =>
      have hdata : sr.range.data.isSome = true := by
        rw [Option.isSome_iff_ne_none]
        intro hnone
        rw [rangeForm, hnone] at hasked
        cases hasked
      simp only [sendWindow, mkHttpRangeSet, if_pos (show cfg.resume = true ∧ sr.range.data.isSome = true from ⟨hget.1, hdata⟩)]
      refine ⟨trivial, fun hset => ?_, hget.2⟩
      split at hset
      · cases hset
      · omega
  · cases hasked

/-- What is sent for an accepted range. -/
theorem length_sentPart_of_asked (file : Bytes) {form : RangeForm} {offset count : Int} (hasked : rangeAsked cfg sr = some form)
    (hwindow : rangeWindow sr.fileInfo.size sr.headers.ranges0 sr.headers.ranges1 = (offset, count))
    (hlate : lateRefusal cfg sr = false) (hcl : sr.headers.contentLength ≠ 0) :
    offset ≤ sr.fileInfo.size ∧ count ≤ sr.fileInfo.size ∧
      (sentPart cfg file sr).length = min count.toNat (file.length - offset.toNat) := by
  obtain ⟨hsend, hset, hget⟩ := sendWindow_of_asked hasked
  rw [hwindow] at hsend
  have hzero : (mkHttpRangeSet cfg sr.fileInfo.size sr).1 = 0 := by
    by_contra hr
    rw [lateRefusal, decide_eq_true ⟨hcl, .inl hget, hr⟩] at hlate
    cases hlate
  obtain ⟨hoffset, hcount⟩ := hset hzero
  rw [hsend] at hoffset hcount
  refine ⟨hoffset, hcount, ?_⟩
  rw [sentPart, if_neg hcl, hsend, length_part]

theorem suffix_framed {last : Int} (hasked : rangeAsked cfg sr = some (.suffix last)) (hann : sr.Announces cfg)
    (hlate : lateRefusal cfg sr = false) (hsize : (file.length : Int) = sr.fileInfo.size) :
    clientLength sr.headers.contentLength = some (sentPart cfg file sr).length := by
  rw [SessionRequest.Announces, hasked] at hann
  obtain ⟨⟨hpos, hr0, hr1, hcl⟩, hbound, -⟩ := hann
  obtain ⟨-, hcount, hlength⟩ := length_sentPart_of_asked file hasked
    (by rw [hr0, hr1, rangeWindow_suffix hpos]) hlate (by omega)
  have hself : toInt last = last := toInt_eq_self (by omega) hbound
  rw [clientLength_eq_some, hcl, hself, hlength]
  omega

theorem startingAt_framed_iff {first : Int} (hasked : rangeAsked cfg sr = some (.startingAt first))
    (hann : sr.Announces cfg) (hlate : lateRefusal cfg sr = false) (hsize : (file.length : Int) = sr.fileInfo.size) :
    clientLength sr.headers.contentLength = some (sentPart cfg file sr).length ↔
      (RangeForm.startingAt first).Framed sr.fileInfo.size := by
  rw [SessionRequest.Announces, hasked] at hann
  obtain ⟨⟨hr0, hr1, hcl⟩, -, hlower⟩ := hann
  simp only [RangeForm.Framed, RangeForm.Lower] at hlower ⊢
  rcases lt_or_ge first 0 with hneg | hpos
  · -- the window is the whole file, and more is announced
    have hwindow : rangeWindow sr.fileInfo.size sr.headers.ranges0 sr.headers.ranges1 = (0, sr.fileInfo.size) := by
      rw [rangeWindow, hr0, hr1, if_neg (by omega), if_neg (by omega), if_neg (by omega)]
    obtain ⟨-, -, hlength⟩ := length_sentPart_of_asked file hasked hwindow hlate (by omega)
    rw [clientLength_eq_some, hlength, hcl]
    refine iff_of_false ?_ (by omega)
    rintro ⟨-, hsame⟩
    have hwhole : toInt (sr.fileInfo.size - first) = sr.fileInfo.size := by omega
    have hmod := @Int.bmod_emod (sr.fileInfo.size - first) (2 ^ 32)
    rw [show (sr.fileInfo.size - first).bmod (2 ^ 32) = sr.fileInfo.size from hwhole] at hmod
    omega
  · by_cases hzero : sr.headers.contentLength = 0
    · rw [sentPart, if_pos hzero, hzero]
      refine iff_of_true rfl (by omega)
    · obtain ⟨hoffset, -, hlength⟩ := length_sentPart_of_asked file hasked
        (by rw [hr0, hr1, rangeWindow_startingAt hpos]) hlate hzero
      have hself := @toInt_eq_self_iff (sr.fileInfo.size - first)
      rw [clientLength_eq_some, hlength, hcl]
      omega

/-- The length of an interval is never zero. -/
theorem intervalLength_ne_zero (x : Int) : toInt (cAbs (toInt x) + 1) ≠ 0 := by
  intro hzero
  have hmod := toInt_eq_zero hzero
  have hlower := toInt_lower x
  have hupper := toInt_upper x
  generalize toInt x = y at hmod hlower hupper
  rcases lt_or_ge |y| (2 ^ 31) with hlt | hge
  · rw [cAbs, toInt_eq_self (by have := abs_nonneg y; omega) hlt] at hmod
    have := abs_nonneg y
    omega
  · obtain rfl : y = -2 ^ 31 := by
      rcases abs_cases y with ⟨habs, -⟩ | ⟨habs, -⟩ <;> omega
    revert hmod
    decide

theorem between_framed_iff {first last : Int} (hasked : rangeAsked cfg sr = some (.between first last))
    (hann : sr.Announces cfg) (hlate : lateRefusal cfg sr = false) (hsize : (file.length : Int) = sr.fileInfo.size) :
    clientLength sr.headers.contentLength = some (sentPart cfg file sr).length ↔
      (RangeForm.between first last).Framed sr.fileInfo.size := by
  rw [SessionRequest.Announces, hasked] at hann
  obtain ⟨⟨hpos, hle, hr0, hr1, hcl⟩, ⟨hlower, hupper⟩, -⟩ := hann
  have hne : sr.headers.contentLength ≠ 0 := hcl ▸ intervalLength_ne_zero (last - first)
  have hint : toInt sr.headers.contentLength = sr.headers.contentLength := by
    rw [hcl]
    exact toInt_eq_self (toInt_lower _) (toInt_upper _)
  have hpart := fun offset count hwindow =>
    @length_sentPart_of_asked cfg sr file _ offset count hasked hwindow hlate hne
  rw [clientLength_eq_some, hint]
  simp only [RangeForm.Framed]
  rcases lt_or_ge first 0 with hneg | hfirst
  · by_cases hminus : first = -1
    · -- read as the suffix form, two bytes longer
      subst hminus
      obtain ⟨-, hcount, hlength⟩ := hpart _ _ (by rw [hr0, hr1, rangeWindow_suffix hpos])
      refine iff_of_false ?_ (by omega)
      have hlong := intervalLength_minus_one hpos.le hupper
      omega
    · obtain ⟨-, -, hlength⟩ := hpart 0 sr.fileInfo.size (by
        rw [hr0, hr1, rangeWindow, if_neg (by omega), if_neg (by omega), if_neg (by omega)])
      rw [← hcl]
      omega
  · have hwindow : rangeWindow sr.fileInfo.size sr.headers.ranges0 sr.headers.ranges1 =
        (first, |toInt (last - first)| + 1) := by
      rw [hr0, hr1, rangeWindow_between hfirst hpos]
    have hdiff : toInt (last - first) = last - first := toInt_eq_self (by omega) (by omega)
    rw [hdiff, abs_of_nonneg (by omega)] at hwindow
    obtain ⟨hoffset, hcount, hlength⟩ := hpart _ _ hwindow
    rcases lt_or_ge (last - first + 1) (2 ^ 31) with hlt | hge
    · rw [(intervalLength hle hlt).2] at hcl
      omega
    · rw [intervalLength_overflow (by omega)] at hcl
      omega

/-- **The part of a file** has the length that its header announces exactly under `SendFramed`. -/
theorem send_framed_iff (hm : sr.method ≠ .head) (hann : sr.Announces cfg) (hlate : lateRefusal cfg sr = false)
    (hsize : (file.length : Int) = sr.fileInfo.size) :
    clientLength sr.headers.contentLength = some (sentPart cfg file sr).length ↔ SendFramed cfg sr := by
  rw [SendFramed, or_iff_right hm]
  cases hasked : rangeAsked cfg sr with
  | none => exact whole_framed_iff hasked hann hsize
  | some form =>
      cases form with
      | suffix last => exact iff_of_true (suffix_framed hasked hann hlate hsize) trivial
      | startingAt first => exact startingAt_framed_iff hasked hann hlate hsize
      | between first last => exact between_framed_iff hasked hann hlate hsize

end

/-! ## what a plan writes -/

/-- What an answer writes: one header, and behind it a page, or the beginning of a file. -/
structure Written (status announced : Int) (text : Option Bytes) (h : HeaderBlock) (tail : List Out) : Prop where
  status : h.status = status
  chunked : h.chunked = false
  length : h.contentLength = printedLength announced
  page : ∀ t, text = some t → ∀ file, tail.flatMap (Out.wire file) = t
  file : text = none → ∀ o ∈ tail, o.isFile = true

/-- The header of a request whose encoding is not chunked. -/
theorem Written.of_send {ctx : Ctx} {sr : SessionRequest} (hknown : statusKnown sr.headers.status = true)
    (henc : sr.headers.transferEncoding = -1) : (mkHeaderSend ctx sr).out = [.header (headerBlock ctx sr)] ∧
      (headerBlock ctx sr).status = sr.headers.status ∧ (headerBlock ctx sr).chunked = false ∧
      (headerBlock ctx sr).contentLength = printedLength sr.headers.contentLength := by
  refine ⟨?_, rfl, ?_, rfl⟩
  · rw [mkHeaderSend]
    exact if_pos (of_decide_eq_true hknown)
  · rw [headerBlock, henc]
    exact decide_eq_false fun h => absurd h.2 (by decide)

theorem isFile_mkHttpSendFile (ctx : Ctx) (sr : SessionRequest) :
    ∀ o ∈ (mkHttpSendFile ctx sr).out, o.isFile = true := by
  unfold mkHttpSendFile
  simp only
  split
  · simp [Out.isFile]
  · split <;> simp

theorem mkRequestError_written (ctx : Ctx) {status : Int} (sr : SessionRequest) (hknown : statusKnown status = true)
    (henc : sr.headers.transferEncoding = -1) : ∃ h tail, (mkRequestError ctx status sr).out = .header h :: tail ∧
      Written status (errorAnnounced ctx.sys status sr)
        (if (errorPageFile ctx.sys status sr).isSome then none else some (errorText ctx.sys status sr)) h tail := by
  unfold mkRequestError
  simp only
  rw [show errorPageFile ctx.sys status { sr with headers := { sr.headers with status := status } } =
    errorPageFile ctx.sys status sr from rfl]
  cases hpage : errorPageFile ctx.sys status sr with
  | some page =>
      obtain ⟨path, info⟩ := page
      simp only
      obtain ⟨hout, hs, hc, hl⟩ := @Written.of_send ctx { sr with
        fdFile := some path, bytesToSend := info.size, fileInfo := info
        headers := { sr.headers with
          status := status, contentLength := info.size, realLength := info.size } } hknown henc
      rw [Res.after, hout]
      refine ⟨_, _, rfl, hs, hc, ?_, fun t ht => ?_, fun _ => isFile_mkHttpSendFile _ _⟩
      · rw [hl, errorAnnounced, hpage]
      · cases ht
  | none =>
      rw [show defaultPage status { sr with headers := { sr.headers with status := status } } =
        defaultPage status sr from rfl]
      simp only
      obtain ⟨hout, hs, hc, hl⟩ := @Written.of_send ctx { sr with
        headers := { sr.headers with
          status := status
          contentLength := (defaultPage status sr).elim sr.headers.contentLength fun p => (p.length : Int)
          location := none, lastModified := -1
          contentType := (defaultPage status sr).elim [] fun _ => ascii "text/html\r\n".toList } } hknown henc
      rw [hout]
      refine ⟨_, _, rfl, hs, hc, ?_, fun t ht file => ?_, fun h => ?_⟩
      · rw [hl, errorAnnounced, hpage]
      · obtain rfl := Option.some.inj ht
        rw [errorText, hpage]
        cases defaultPage status sr with
        | none => simp
        | some p =>
            by_cases hhead : sr.method = .head
            · simp [hhead]
            · simp [hhead, Out.wire]
      · cases h

/-- Posted data is refused with a status of its own. -/
theorem mkMethodParseData_refused {ctx : Ctx} {sr : SessionRequest} (h : (mkMethodParseData ctx sr).ret ≠ 0) :
    ∃ toc, mkMethodParseData ctx sr =
      { mkRequestError ctx (dataStatus ctx) { sr with headersToc := toc } with ret := -1 } := by
  unfold mkMethodParseData dataStatus at *
  simp only at h ⊢
  split
  · exact ⟨sr.headersToc, rfl⟩
  split
  · exact ⟨sr.headersToc, rfl⟩
  split
  · exact ⟨sr.headersToc, rfl⟩
  split
  · exact ⟨_, rfl⟩
  · next hlength hpos hsize htype =>
      rw [if_neg hlength, if_neg hpos, if_neg hsize, if_neg htype] at h
      exact absurd rfl h

theorem plainStatus_dataStatus (ctx : Ctx) : plainStatus (dataStatus ctx) = true := by
  unfold dataStatus
  simp only
  repeat' split
  all_goals rfl

theorem errorPageFile_dataStatus (ctx : Ctx) (sr : SessionRequest) :
    errorPageFile ctx.sys (dataStatus ctx) sr = none := by
  rw [errorPageFile, if_pos (plainStatus_dataStatus ctx)]

/-- **What a plan of one header writes**, as long as it does not abort. -/
theorem Plan.run_written {ctx : Ctx} {f : Flags} {m : Method} {plan : Plan} (hfor : plan.For ctx f)
    (hout : plan.Outset ctx.cfg m) (hone : plan.headers ctx = 1) (haborts : plan.aborts = false) :
    ∃ h tail, (plan.run ctx).out = .header h :: tail ∧
      Written (plan.answerStatus ctx) (plan.announced ctx)
        (if (plan.window ctx).isSome then none else some (plan.text ctx)) h tail := by
  cases plan with
  | silent ret sr => cases hone
  | noHome sr => cases haborts
  | error status sr =>
      have := mkRequestError_written ctx sr (toNat_eq_one hone) hout.encoding
      rwa [Plan.window, Option.isSome_map]
  | refuse ret status sr =>
      have := mkRequestError_written ctx sr (toNat_eq_one hone) hout.encoding
      rwa [Plan.window, Option.isSome_map]
  | noData sr =>
      obtain ⟨toc, hdata⟩ := mkMethodParseData_refused (hfor.data sr rfl)
      obtain ⟨h, tail, hrun, hwritten⟩ := @mkRequestError_written ctx (dataStatus ctx)
        { sr with headersToc := toc } (statusKnown_of_plainStatus (plainStatus_dataStatus ctx)) hout.encoding
      rw [show errorPageFile ctx.sys _ { sr with headersToc := toc } = none from errorPageFile_dataStatus ctx sr] at hwritten
      refine ⟨h, tail, ?_, hwritten⟩
      rw [Plan.run, hdata]
      exact hrun
  | redirect sr =>
      obtain ⟨r, hr⟩ := Option.isSome_iff_exists.mp (hfor.location sr rfl)
      rw [Plan.run, hr, Option.getD_some]
      unfold mkHttpDirectoryRedirectCheck at hr
      simp only at hr
      split at hr
      · cases hr
      · obtain rfl := Option.some.inj hr
        simp only
        obtain ⟨hsent, hs, hc, hl⟩ := @Written.of_send ctx { sr with
          headers := { sr.headers with
            status := mkRedirMoved, contentLength := 0, contentType := []
            location := some (ctx.cfg.transport ++ ascii [':', '/', '/'] ++ cstr sr.host.text ++
              (if sr.host.data.isSome = true ∧ sr.port > 0 ∧ sr.port ≠ ctx.cfg.standardPort then
                ascii (':' :: (toString (toInt sr.port)).toList) else []) ++ cstr sr.uriProcessed.text ++ [0x2f]) } }
          (show statusKnown mkRedirMoved = true from rfl) hout.encoding
        exact ⟨_, _, hsent, hs, hc, hl, fun t ht file => Option.some.inj ht, fun h => (by cases h)⟩
  | notModified sr =>
      obtain ⟨hsent, hs, hc, hl⟩ := @Written.of_send ctx
        { sr with headers := { sr.headers with status := mkNotModified } }
        (show statusKnown mkNotModified = true from rfl) hout.encoding
      exact ⟨_, _, hsent, hs, hc, hl, fun t ht file => Option.some.inj ht, fun h => (by cases h)⟩
  | send sr =>
      have hknown : statusKnown sr.headers.status = true := by
        rcases hfor.status sr rfl with hs | hs <;> rw [hs] <;> rfl
      obtain ⟨hsent, hs, hc, hl⟩ := @Written.of_send ctx sr hknown hout.encoding
      have hlate : lateRefusal ctx.cfg sr = false := by
        cases hl : lateRefusal ctx.cfg sr with
        | false => rfl
        | true => simp [Plan.headers, hl] at hone
      rw [Plan.run, mkHttpInitTail]
      simp only [mkHttpRangeSet_mkHeaderSend]
      by_cases hcl : (mkHeaderSend ctx sr).sr.headers.contentLength = 0
      · have hwindow : (Plan.send sr).window ctx = none := if_neg fun hw => hw.1 hcl
        rw [if_pos hcl, hwindow]
        exact ⟨_, _, hsent, hs, hc, hl, fun t ht file => Option.some.inj ht, fun h => (by cases h)⟩
      · rw [if_neg hcl]
        by_cases hm : (mkHeaderSend ctx sr).sr.method = .get ∨ (mkHeaderSend ctx sr).sr.method = .post
        · have hset : (mkHttpRangeSet ctx.cfg sr.fileInfo.size sr).1 = 0 := by
            by_contra hr
            rw [lateRefusal, decide_eq_true ⟨hcl, hm, hr⟩] at hlate
            cases hlate
          have hwindow : ((Plan.send sr).window ctx).isSome = true := by
            rw [Plan.window, if_pos ⟨hcl, hm⟩]
            rfl
          rw [if_pos hm, if_neg (not_not.mpr hset), Res.after, hsent, if_pos hwindow]
          exact ⟨_, _, rfl, hs, hc, hl, fun t ht => (by cases ht), fun _ => isFile_mkHttpSendFile _ _⟩
        · have hwindow : (Plan.send sr).window ctx = none := if_neg fun hw => hm hw.2
          rw [if_neg hm, hwindow]
          exact ⟨_, _, hsent, hs, hc, hl, fun t ht file => Option.some.inj ht, fun h => (by cases h)⟩

/-! ## the length against the body -/

/-- The length that a client takes the body of an answer to have. -/
def Plan.clientLength (ctx : Ctx) (plan : Plan) : Option Nat :=
  if plan.sr.method = .head ∨ bodiless (plan.answerStatus ctx) = true then some 0
  else Monkey.clientLength (plan.announced ctx)

/-- No page is made for a status without a body. -/
theorem defaultPage_bodiless {status : Int} (h : bodiless status = true) (sr : SessionRequest) :
    defaultPage status sr = none := by
  have hne : ∀ s : Int, bodiless s = false → status ≠ s := by
    rintro s hs rfl
    rw [hs] at h
    cases h
  rw [defaultPage, if_neg (hne _ rfl), if_neg (hne _ rfl), if_neg (hne _ rfl), if_neg (hne _ rfl), if_neg (hne _ rfl),
    if_neg (hne _ rfl), if_neg (hne _ rfl), if_neg (hne _ rfl), if_neg (hne _ rfl), if_neg (hne _ rfl)]

theorem error_framed_iff {ctx : Ctx} {status : Int} {sr : SessionRequest} {file : Bytes}
    (hlength : defaultPage status sr = none → sr.headers.contentLength = -1)
    (hfile : ∀ page, errorPageFile ctx.sys status sr = some page → (file.length : Int) = page.2.size) :
    (if sr.method = .head ∨ bodiless status = true then some 0 else clientLength (errorAnnounced ctx.sys status sr)) =
        some (match errorPageFile ctx.sys status sr with
          | some page => ((file.drop 0).take page.2.size.toNat).length
          | none => (errorText ctx.sys status sr).length) ↔ ErrorFramed ctx.sys status sr := by
  rw [ErrorFramed]
  cases hpage : errorPageFile ctx.sys status sr with
  | some page =>
      have hsize := hfile page hpage
      have hwhole : ((file.drop 0).take page.2.size.toNat).length = file.length := by
        rw [List.length_take, List.length_drop]
        omega
      simp only [hwhole, errorAnnounced, hpage]
      by_cases hnone : sr.method = .head ∨ bodiless status = true
      · rw [if_pos hnone, Option.some.injEq]
        have hnot : ¬ (sr.method ≠ .head ∧ bodiless status = false ∧ page.2.size < 2 ^ 31) := by
          rintro ⟨hhead, hbody, -⟩
          rcases hnone with h | h
          · exact hhead h
          · rw [h] at hbody
            cases hbody
        rw [or_iff_left hnot]
        omega
      · rw [not_or, Bool.not_eq_true] at hnone
        rw [if_neg (by simp [hnone]), ← hsize, clientLength_self]
        simp only [hnone, ne_eq, not_false_eq_true, true_and]
        omega
  | none =>
      simp only [errorText, errorAnnounced, hpage, Option.isSome_none, Bool.false_eq_true, false_or]
      by_cases hhead : sr.method = .head
      · simp [hhead]
      by_cases hbody : bodiless status = true
      · simp [hhead, hbody, defaultPage_bodiless hbody]
      · rw [if_neg (by simp [hhead, hbody]), if_neg hhead]
        simp only [hhead, hbody, Bool.false_eq_true, false_or]
        cases hdefault : defaultPage status sr with
        | none =>
            rw [Option.elim_none, hlength hdefault]
            exact iff_of_false (fun h => by cases h) fun ⟨_, h, _⟩ => by cases h
        | some p =>
            rw [Option.elim_some, Option.getD_some, clientLength_self]
            simp only [Option.some.injEq, exists_eq_left']
            exact_mod_cast Iff.rfl

/-- **Where a client finds the end**: the length that it takes the body of an answer to have is that
of the bytes behind the header exactly if the plan is `Framed`. -/
theorem Plan.framed_iff {ctx : Ctx} {f : Flags} {m : Method} {plan : Plan} {file : Bytes} (hfor : plan.For ctx f)
    (hout : plan.Outset ctx.cfg m) (hone : plan.headers ctx = 1) (haborts : plan.aborts = false)
    (hoffset : plan.sr.bytesOffset = 0)
    (hfile : (plan.window ctx).isSome = true → (file.length : Int) = plan.fileSize ctx) :
    plan.clientLength ctx = some (plan.body ctx file).length ↔ plan.Framed ctx := by
  cases plan with
  | silent ret sr => cases hone
  | noHome sr => cases haborts
  | error status sr =>
      have hpage : ∀ page, errorPageFile ctx.sys status sr = some page → (file.length : Int) = page.2.size := by
        intro page hpage
        simpa [Plan.window, Plan.fileSize, hpage] using hfile
      have hlength : defaultPage status sr = none → sr.headers.contentLength = -1 :=
        fun hnone => hout.length (by rw [Plan.lengthKnown, hnone]; rfl)
      rw [← show _ ↔ (Plan.error status sr).Framed ctx from error_framed_iff hlength hpage, Plan.clientLength, Plan.body,
        Plan.window]
      cases errorPageFile ctx.sys status sr with
      | none => rfl
      | some page =>
          rw [Option.map_some, show sr.bytesOffset = 0 from hoffset]
          rfl
  | refuse ret status sr =>
      have hpage : ∀ page, errorPageFile ctx.sys status sr = some page → (file.length : Int) = page.2.size := by
        intro page hpage
        simpa [Plan.window, Plan.fileSize, hpage] using hfile
      rw [← show _ ↔ (Plan.refuse ret status sr).Framed ctx from error_framed_iff (fun _ => hout.length rfl) hpage,
        Plan.clientLength, Plan.body, Plan.window]
      cases errorPageFile ctx.sys status sr with
      | none => rfl
      | some page =>
          rw [Option.map_some, show sr.bytesOffset = 0 from hoffset]
          rfl
  | noData sr =>
      have hplain := errorPageFile_dataStatus ctx sr
      have hframed := @error_framed_iff ctx (dataStatus ctx) sr file (fun _ => hout.length rfl)
        (fun page h => by rw [hplain] at h; cases h)
      rw [hplain] at hframed
      exact hframed
  | redirect sr =>
      refine iff_of_true ?_ trivial
      rw [Plan.clientLength]
      split <;> rfl
  | notModified sr => exact iff_of_true (if_pos (.inr rfl)) trivial
  | send sr =>
      by_cases hhead : sr.method = .head
      · have hwindow : (Plan.send sr).window ctx = none := if_neg fun hw => by simp [hhead] at hw
        refine iff_of_true ?_ (.inl hhead)
        rw [Plan.clientLength, if_pos (.inl hhead), Plan.body, hwindow]
        rfl
      · obtain ⟨hserved, hpos, hann⟩ := hout.announces sr rfl (by rwa [← hout.method])
        have hm : sr.method = .get ∨ sr.method = .post := by
          rwa [show sr.method = m from hout.method]
        have hlate : lateRefusal ctx.cfg sr = false := by
          cases hl : lateRefusal ctx.cfg sr with
          | false => rfl
          | true => simp [Plan.headers, hl] at hone
        have hbodied : bodiless sr.headers.status = false := by
          rcases hfor.status sr rfl with hs | hs <;> rw [hs] <;> rfl
        have hlength : (Plan.send sr).clientLength ctx = Monkey.clientLength sr.headers.contentLength := by
          rw [Plan.clientLength, if_neg]
          · rfl
          · simp [Plan.sr, Plan.answerStatus, hhead, hbodied]
        have hbody : (Plan.send sr).body ctx file = sentPart ctx.cfg file sr := by
          rw [Plan.body, Plan.window, sentPart]
          by_cases hcl : sr.headers.contentLength = 0
          · rw [if_pos hcl, if_neg fun hw => hw.1 hcl]
            rfl
          · rw [if_neg hcl, if_pos ⟨hcl, hm⟩]
            rfl
        obtain ⟨file', hsize, hpart⟩ : ∃ file' : Bytes, (file'.length : Int) = sr.fileInfo.size ∧
            sentPart ctx.cfg file sr = sentPart ctx.cfg file' sr := by
          by_cases hcl : sr.headers.contentLength = 0
          · exact ⟨List.replicate sr.fileInfo.size.toNat 0, by simp; omega, by rw [sentPart, sentPart, if_pos hcl, if_pos hcl]⟩
          · exact ⟨file, hfile (by rw [Plan.window, if_pos ⟨hcl, hm⟩]; rfl), rfl⟩
        rw [hlength, hbody, hpart]
        exact send_framed_iff hhead hann hlate hsize

/-- A window that is not longer than the file does not begin in front of it. -/
theorem rangeWindow_nonneg {size r0 r1 offset count : Int} (h : rangeWindow size r0 r1 = (offset, count))
    (hcount : count ≤ size) : 0 ≤ offset := by
  unfold rangeWindow at h
  split_ifs at h
  all_goals
    obtain ⟨rfl, rfl⟩ := Prod.mk.inj h
    omega

/-- The part of the file of an answer does not begin in front of it. -/
theorem Plan.window_nonneg {ctx : Ctx} {plan : Plan} {offset count : Int} (hone : plan.headers ctx = 1)
    (hoffset : plan.sr.bytesOffset = 0) (h : plan.window ctx = some (offset, count)) : 0 ≤ offset := by
  have herror : ∀ (page : Option (Bytes × FileInfo)), page.map (fun page => (plan.sr.bytesOffset, page.2.size)) =
      some (offset, count) → 0 ≤ offset := by
    intro page hpage
    obtain ⟨page, -, hwindow⟩ := Option.map_eq_some_iff.mp hpage
    obtain ⟨rfl, -⟩ := Prod.mk.inj hwindow
    exact hoffset.ge
  cases plan with
  | silent ret sr => cases h
  | noHome sr => cases h
  | noData sr => cases h
  | redirect sr => cases h
  | notModified sr => cases h
  | error status sr => exact herror _ h
  | refuse ret status sr => exact herror _ h
  | send sr =>
      rw [Plan.window] at h
      split at h
      · next hsend =>
          have hset : (mkHttpRangeSet ctx.cfg sr.fileInfo.size sr).1 = 0 := by
            by_contra hr
            rw [Plan.headers, lateRefusal, decide_eq_true ⟨hsend.1, hsend.2, hr⟩] at hone
            cases hone
          obtain ⟨rfl, rfl⟩ := Prod.mk.inj (Option.some.inj h)
          unfold mkHttpRangeSet at hset ⊢
          split at hset
          · next hasked =>
              rw [if_pos hasked]
              rcases hwindow : rangeWindow sr.fileInfo.size sr.headers.ranges0 sr.headers.ranges1 with ⟨offset, count⟩
              rw [hwindow] at hset
              simp only [ite_eq_right_iff] at hset ⊢
              refine rangeWindow_nonneg hwindow ?_
              by_contra hlong
              exact absurd (hset (.inr (not_le.mp hlong))) (by decide)
          · next hasked => rw [if_neg hasked]
      · cases h

end Monkey
