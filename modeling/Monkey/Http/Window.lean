import Monkey.Http.Init

/-!
# Monkey.Http.Window

Partial content: the interval printed in `Content-Range`, the length printed in
`Content-Length` and the window of the file that is sent are computed by three
pieces of code.  They describe the same interval of the file exactly when the
numbers of the range, as C `int`s, lie within the file (`RangeWithin`); the
interval form `yyy-xxx` is nowhere checked against the size of the file.
-/

namespace Monkey

/-! ## the text of a range -/

/-- The three forms of a range, with their numbers as the `int`s the code
stores. -/
inductive RangeForm
  | suffix (last : Int)
  | between (first last : Int)
  | startingAt (first : Int)
deriving DecidableEq, Repr

/-- The form of a text of `len` bytes with `=` and `-` at the given positions. -/
def rangeFormAt (data : Bytes) (len eqPos sepPos : Int) : Option RangeForm :=
  if eqPos < 0 ∨ strncasecmp data rangeUnit eqPos.toNat = false ∨ sepPos < 0 then none
  else if eqPos + 1 = sepPos then
    some (.suffix (rangeNumber (data.drop (sepPos.toNat + 1))))
  else if len > sepPos + 1 then
    some (.between (rangeNumber ((mkStringCopySubstr data (eqPos + 1) sepPos).getD []))
      (rangeNumber ((mkStringCopySubstr data (sepPos + 1) len).getD [])))
  else if len = sepPos + 1 then
    some (.startingAt (rangeNumber ((mkStringCopySubstr data (eqPos + 1) len).getD [])))
  else none

/-- The form of a `Range` value. -/
def rangeForm (range : MkPointer) : Option RangeForm :=
  match range.data with
  | none => none
  | some data =>
      rangeFormAt data (toInt range.len) (mkStringCharSearch data 0x3d (toInt range.len))
        (mkStringCharSearch data 0x2d (toInt range.len))

/-- What a range does to the request, by form. -/
def applyRange (sr : SessionRequest) : Option RangeForm → Int × SessionRequest
  | none => (-1, sr)
  | some (.suffix last) =>
      (if last ≤ 0 then -1 else 0, { sr with
        headers := { sr.headers with
          ranges0 := -1, ranges1 := last
          contentLength := if last ≤ 0 then sr.headers.contentLength else last } })
  | some (.between first last) =>
      (if last ≤ 0 ∨ first > last then -1 else 0, { sr with
        headers := { sr.headers with
          ranges0 := first, ranges1 := last
          contentLength := if last ≤ 0 ∨ first > last then sr.headers.contentLength
            else toInt (cAbs (toInt (last - first)) + 1) } })
  | some (.startingAt first) =>
      (0, { sr with
        headers := { sr.headers with
          ranges0 := first, contentLength := sr.headers.contentLength - first } })

theorem mkHttpRangeParseAt_eq (data : Bytes) (len eqPos sepPos : Int) (sr : SessionRequest) :
    mkHttpRangeParseAt data len eqPos sepPos sr =
      applyRange sr (rangeFormAt data len eqPos sepPos) := by
  unfold mkHttpRangeParseAt rangeFormAt
  by_cases hbad : eqPos < 0 ∨ strncasecmp data rangeUnit eqPos.toNat = false ∨ sepPos < 0
  · rw [if_pos hbad]
    rcases hbad with hbad | hbad | hbad
    all_goals simp [hbad, applyRange]
  · rw [if_neg hbad]
    push Not at hbad
    obtain ⟨heq, hunit, hsep⟩ := hbad
    rw [if_neg (by omega), if_neg hunit, if_neg (by omega)]
    by_cases hsuffix : eqPos + 1 = sepPos
    · simp only [if_pos hsuffix, applyRange]
      generalize rangeNumber (data.drop (sepPos.toNat + 1)) = last
      by_cases hlast : last ≤ 0
      · simp only [if_pos hlast]
      · simp only [if_neg hlast]
    · simp only [if_neg hsuffix]
      by_cases hbetween : len > sepPos + 1
      · simp only [if_pos hbetween, applyRange]
        generalize rangeNumber ((mkStringCopySubstr data (eqPos + 1) sepPos).getD []) = first
        generalize rangeNumber ((mkStringCopySubstr data (sepPos + 1) len).getD []) = last
        by_cases hlast : last ≤ 0 ∨ first > last
        · simp only [if_pos hlast]
        · simp only [if_neg hlast]
      · simp only [if_neg hbetween]
        by_cases hstart : len = sepPos + 1
        · simp only [if_pos hstart, applyRange]
        · simp only [if_neg hstart, applyRange]

/-- `mk_http_range_parse` by form. -/
theorem mkHttpRangeParse_eq (sr : SessionRequest) :
    mkHttpRangeParse sr = applyRange sr (rangeForm sr.range) := by
  unfold mkHttpRangeParse rangeForm
  cases sr.range.data with
  | none => rfl
  | some data => exact mkHttpRangeParseAt_eq data _ _ _ sr

theorem rangeNumber_bounds (s : Bytes) : -2 ^ 31 ≤ rangeNumber s ∧ rangeNumber s < 2 ^ 31 :=
  ⟨toInt_lower _, toInt_upper _⟩

/-- The numbers of a form are C `int`s. -/
def RangeForm.Bounded : RangeForm → Prop
  | .suffix last => last < 2 ^ 31
  | .between first last => -2 ^ 31 ≤ first ∧ last < 2 ^ 31
  | .startingAt first => first < 2 ^ 31

theorem rangeForm_bounded {range : MkPointer} {form : RangeForm}
    (h : rangeForm range = some form) : form.Bounded := by
  unfold rangeForm at h
  split at h
  · contradiction
  · generalize toInt range.len = len at h
    unfold rangeFormAt at h
    split at h
    · contradiction
    · split at h
      · obtain rfl := Option.some.inj h
        exact (rangeNumber_bounds _).2
      · split at h
        · obtain rfl := Option.some.inj h
          exact ⟨(rangeNumber_bounds _).1, (rangeNumber_bounds _).2⟩
        · split at h
          · obtain rfl := Option.some.inj h
            exact (rangeNumber_bounds _).2
          · contradiction

/-! ## what the response says and what is sent -/

/-- The bytes of the file sent by some output. -/
def sentBytes (out : List Out) : Int :=
  (out.map fun
    | .file _ count => count
    | _ => 0).sum

/-- The header describes one interval of a file of `size` bytes, and the window
of the file to send started as that interval. -/
def RangeSent (size : Int) (r : Res) (h : HeaderBlock) : Prop :=
  ∃ first last, h.contentRange = some (first, last, size) ∧
    0 ≤ first ∧ first ≤ last ∧ last < size ∧
    h.contentLength = some (last - first + 1) ∧
    r.sr.bytesOffset - sentBytes r.out = first ∧
    r.sr.bytesToSend + sentBytes r.out = last - first + 1

/-- The numbers of the range lie within a file of `size` bytes, and the length of
the interval is an `int`. -/
def RangeWithin (size : Int) : RangeForm → Prop
  | .suffix last => last ≤ size
  | .between first last => 0 ≤ first ∧ last < size ∧ last - first + 1 < 2 ^ 31
  | .startingAt first => first < size ∧ size - first < 2 ^ 31

/-- `mk_http_send_file` moves the window by what it sends. -/
theorem mkHttpSendFile_window (ctx : Ctx) (sr : SessionRequest) :
    (mkHttpSendFile ctx sr).sr.bytesOffset - sentBytes (mkHttpSendFile ctx sr).out =
        sr.bytesOffset ∧
      (mkHttpSendFile ctx sr).sr.bytesToSend + sentBytes (mkHttpSendFile ctx sr).out =
        sr.bytesToSend := by
  unfold mkHttpSendFile
  simp only
  split
  · simp [sentBytes]
  · split <;> simp [sentBytes]

/-- What `mk_header_send` writes is the block of the request. -/
theorem mkHeaderSend_header {ctx : Ctx} {sr : SessionRequest} {h : HeaderBlock}
    (hh : .header h ∈ (mkHeaderSend ctx sr).out) : h = headerBlock ctx sr := by
  unfold mkHeaderSend at hh
  simp only at hh
  split at hh <;> simp at hh
  exact hh

theorem mkHttpSendFile_no_header {ctx : Ctx} {sr : SessionRequest} {h : HeaderBlock} :
    .header h ∉ (mkHttpSendFile ctx sr).out := by
  unfold mkHttpSendFile
  simp only
  split
  · simp
  · split <;> simp

/-- The header of an error response has the status of the error. -/
theorem mkRequestError_header {ctx : Ctx} {status : Int} {sr : SessionRequest} {h : HeaderBlock}
    (hh : .header h ∈ (mkRequestError ctx status sr).out) : h.status = status := by
  unfold mkRequestError at hh
  simp only at hh
  split at hh
  · rcases List.mem_append.mp hh with hh | hh
    · rw [mkHeaderSend_header hh]
      rfl
    · exact absurd hh mkHttpSendFile_no_header
  · rcases List.mem_append.mp hh with hh | hh
    · rw [mkHeaderSend_header hh]
      rfl
    · split at hh
      · split at hh <;> simp at hh
      · contradiction

/-! ## the three computations -/

/-- The response headers of a 206 on a file of `size` bytes, by the form of the
range. -/
def PartialHeaders (size : Int) (h : ResponseHeaders) : RangeForm → Prop
  | .suffix last =>
      0 < last ∧ h.ranges0 = -1 ∧ h.ranges1 = last ∧ h.contentLength = last
  | .between first last =>
      0 < last ∧ first ≤ last ∧ h.ranges0 = first ∧ h.ranges1 = last ∧
        h.contentLength = toInt (cAbs (toInt (last - first)) + 1)
  | .startingAt first =>
      0 ≤ first ∧ h.ranges0 = first ∧ h.ranges1 = -1 ∧ h.contentLength = size - first

/-- The `Content-Length` field. -/
def contentLengthField (h : ResponseHeaders) : Option Int :=
  if h.contentLength ≥ 0 then some (toInt h.contentLength) else none

/-- The length of the interval `yyy-xxx`, as long as it is an `int`. -/
theorem intervalLength {first last : Int} (hle : first ≤ last)
    (hlen : last - first + 1 < 2 ^ 31) :
    toInt (last - first) = last - first ∧
      toInt (cAbs (toInt (last - first)) + 1) = last - first + 1 := by
  have hdiff : toInt (last - first) = last - first := toInt_eq_self (by omega) (by omega)
  refine ⟨hdiff, ?_⟩
  rw [hdiff, cAbs, abs_of_nonneg (by omega), hdiff]
  exact toInt_eq_self (by omega) (by omega)

/-- An interval of all `2 ^ 31` values has no `int` length. -/
theorem intervalLength_overflow {first last : Int} (h : last - first + 1 = 2 ^ 31) :
    toInt (cAbs (toInt (last - first)) + 1) = -2 ^ 31 := by
  rw [show last - first = 2 ^ 31 - 1 by omega]
  decide

theorem sentBytes_append (out out' : List Out) :
    sentBytes (out ++ out') = sentBytes out + sentBytes out' := by
  simp [sentBytes]

/-- A header sends nothing of the file. -/
theorem sentBytes_after_header (ctx : Ctx) (sr : SessionRequest) (r : Res) :
    sentBytes (Res.after (mkHeaderSend ctx sr).out r).out = sentBytes r.out := by
  have hzero : sentBytes (mkHeaderSend ctx sr).out = 0 := by
    unfold mkHeaderSend
    simp only
    split <;> simp [sentBytes]
  rw [Res.after, sentBytes_append, hzero, zero_add]

/-- A first number of `-1` makes the interval two bytes longer, or its length negative. -/
theorem intervalLength_minus_one {b : Int} (hl : 0 ≤ b) (hu : b < 2 ^ 31) :
    toInt (cAbs (toInt (b - -1)) + 1) = b + 2 ∨ toInt (cAbs (toInt (b - -1)) + 1) < 0 := by
  rcases lt_trichotomy (b + 2) (2 ^ 31) with hlt | heq | hgt
  · left
    have habs : cAbs (b + 1) = b + 1 := by
      rw [cAbs, abs_of_nonneg (by omega)]
      exact toInt_eq_self (by omega) (by omega)
    have hdiff : toInt (b - -1) = b + 1 := toInt_eq_self (by omega) (by omega)
    rw [hdiff, habs, toInt_eq_self (by omega) (by omega)]
    omega
  · right
    rw [show b = 2 ^ 31 - 2 by omega]
    decide
  · right
    rw [show b = 2 ^ 31 - 1 by omega]
    decide

/-- The header determines the numbers. -/
theorem within_of_header {cfg : Config} {size first last : Int} {h : ResponseHeaders}
    {form : RangeForm} (hp : PartialHeaders size h form) (hb : form.Bounded)
    (hreal : h.realLength = size) (hrange : contentRangeField cfg h = some (first, last, size))
    (hfirst : 0 ≤ first) (hlast : last < size)
    (hlen : contentLengthField h = some (last - first + 1)) : RangeWithin size form := by
  unfold contentRangeField at hrange
  unfold contentLengthField at hlen
  split at hrange
  on_goal 2 => contradiction
  cases form with
  | suffix n =>
      obtain ⟨hpos, hr0, hr1, _⟩ := hp
      simp only [hr0, hr1, hreal] at hrange
      rw [if_neg (by omega), if_neg (by omega), if_pos ⟨trivial, hpos⟩] at hrange
      simp only [Option.some.injEq, Prod.mk.injEq] at hrange
      simp only [RangeWithin]
      omega
  | startingAt a =>
      obtain ⟨hpos, hr0, hr1, hcl⟩ := hp
      simp only [hr0, hr1, hreal] at hrange
      rw [if_pos ⟨hpos, trivial⟩] at hrange
      simp only [Option.some.injEq, Prod.mk.injEq] at hrange
      rw [hcl] at hlen
      split at hlen
      · have hself : toInt (size - a) = size - a := by
          have := Option.some.inj hlen
          omega
        have := (toInt_eq_self_iff.mp hself).2
        simp only [RangeWithin]
        omega
      · contradiction
  | between a b =>
      obtain ⟨hpos, hle, hr0, hr1, hcl⟩ := hp
      obtain ⟨hbl, hbu⟩ := hb
      simp only [hr0, hr1, hreal] at hrange
      rw [if_neg (by omega)] at hrange
      rw [hcl] at hlen
      by_cases ha : 0 ≤ a
      · rw [if_pos ⟨ha, by omega⟩] at hrange
        simp only [Option.some.injEq, Prod.mk.injEq] at hrange
        refine ⟨ha, by omega, ?_⟩
        by_contra hover
        rw [intervalLength_overflow (by omega)] at hlen
        contradiction
      · rw [if_neg (by omega)] at hrange
        split at hrange
        · next hminus =>
            -- a first number of -1 is read as the suffix form, two bytes longer
            obtain ⟨rfl, _⟩ := hminus
            simp only [Option.some.injEq, Prod.mk.injEq] at hrange
            exfalso
            obtain hlong | hneg := intervalLength_minus_one hpos.le hbu
            · have hupper := toInt_upper (cAbs (toInt (b - -1)) + 1)
              rw [hlong] at hupper
              rw [hlong, if_pos (by omega), toInt_eq_self (by omega) hupper] at hlen
              have := Option.some.inj hlen
              omega
            · rw [if_neg (by omega)] at hlen
              contradiction
        · contradiction

/-- The window by form. -/
theorem rangeWindow_suffix {size n : Int} (hn : 0 < n) :
    rangeWindow size (-1) n = (size - n, n) := by
  rw [rangeWindow, if_neg (by omega), if_neg (by omega), if_pos ⟨rfl, hn⟩]

theorem rangeWindow_startingAt {size a : Int} (ha : 0 ≤ a) :
    rangeWindow size a (-1) = (a, size - a) := by
  rw [rangeWindow, if_pos ⟨ha, rfl⟩]

theorem rangeWindow_between {size a b : Int} (ha : 0 ≤ a) (hb : 0 < b) :
    rangeWindow size a b = (a, |toInt (b - a)| + 1) := by
  rw [rangeWindow, if_neg (by omega), if_pos ⟨ha, by omega⟩]

/-- A window within the file is not refused. -/
theorem mkHttpRangeSet_of_window {cfg : Config} {size offset count : Int} {sr : SessionRequest}
    (hresume : cfg.resume = true) (hdata : sr.range.data.isSome)
    (hw : rangeWindow size sr.headers.ranges0 sr.headers.ranges1 = (offset, count))
    (hoffset : offset ≤ size) (hcount : count ≤ size) :
    mkHttpRangeSet cfg size sr =
      (0, { sr with bytesOffset := offset, bytesToSend := count }) := by
  rw [mkHttpRangeSet, if_pos ⟨hresume, hdata⟩, hw]
  simp only
  rw [if_neg (by omega)]

/-- A nonnegative `int` is printed as it is. -/
theorem contentLengthField_eq {h : ResponseHeaders} {n : Int} (hcl : h.contentLength = n)
    (h0 : 0 ≤ n) (hn : n < 2 ^ 31) : contentLengthField h = some n := by
  rw [contentLengthField, hcl, if_pos h0, toInt_eq_self (by omega) hn]

/-- Numbers within the file make the three computations agree. -/
theorem agree_of_within {cfg : Config} {size : Int} {sr : SessionRequest} {form : RangeForm}
    (hp : PartialHeaders size sr.headers form) (hb : form.Bounded) (hresume : cfg.resume = true)
    (hreal : sr.headers.realLength = size) (hdata : sr.range.data.isSome)
    (hw : RangeWithin size form) :
    ∃ first last, contentRangeField cfg sr.headers = some (first, last, size) ∧
      0 ≤ first ∧ first ≤ last ∧ last < size ∧
      sr.headers.contentLength = last - first + 1 ∧
      contentLengthField sr.headers = some (last - first + 1) ∧
      mkHttpRangeSet cfg size sr =
        (0, { sr with bytesOffset := first, bytesToSend := last - first + 1 }) := by
  cases form with
  | suffix n =>
      obtain ⟨hpos, hr0, hr1, hcl⟩ := hp
      simp only [RangeForm.Bounded] at hb
      simp only [RangeWithin] at hw
      refine ⟨size - n, size - 1, ?_, by omega, by omega, by omega, by omega,
        contentLengthField_eq (by omega) (by omega) (by omega), ?_⟩
      · simp only [contentRangeField, hr0, hr1, hreal, hcl]
        rw [if_pos ⟨⟨by omega, by omega⟩, hresume⟩, if_neg (by omega), if_neg (by omega),
          if_pos ⟨trivial, hpos⟩]
      · refine mkHttpRangeSet_of_window hresume hdata ?_ (by omega) (by omega)
        rw [hr0, hr1, rangeWindow_suffix hpos]
        congr 1
        omega
  | startingAt a =>
      obtain ⟨hpos, hr0, hr1, hcl⟩ := hp
      obtain ⟨hlt, hlen⟩ := hw
      refine ⟨a, size - 1, ?_, by omega, by omega, by omega, by omega,
        contentLengthField_eq (by omega) (by omega) (by omega), ?_⟩
      · simp only [contentRangeField, hr0, hr1, hreal, hcl]
        rw [if_pos ⟨⟨by omega, by omega⟩, hresume⟩, if_pos ⟨hpos, trivial⟩]
      · refine mkHttpRangeSet_of_window hresume hdata ?_ (by omega) (by omega)
        rw [hr0, hr1, rangeWindow_startingAt hpos]
        congr 1
        omega
  | between a b =>
      obtain ⟨hpos, hle, hr0, hr1, hcl⟩ := hp
      obtain ⟨h0, hlt, hlen⟩ := hw
      obtain ⟨hdiff, hlength⟩ := intervalLength hle hlen
      rw [hlength] at hcl
      refine ⟨a, b, ?_, h0, hle, hlt, hcl,
        contentLengthField_eq hcl (by omega) hlen, ?_⟩
      · simp only [contentRangeField, hr0, hr1, hreal, hcl]
        rw [if_pos ⟨⟨by omega, by omega⟩, hresume⟩, if_neg (by omega), if_pos ⟨h0, by omega⟩]
      · refine mkHttpRangeSet_of_window hresume hdata ?_ (by omega) (by omega)
        rw [hr0, hr1, rangeWindow_between h0 hpos, hdiff, abs_of_nonneg (by omega)]

/-! ## from the request to the response -/

/-- A range touches the response headers only. -/
theorem rangeStep_eq {cfg : Config} {sr sr' : SessionRequest} (h : rangeStep cfg sr = some sr') :
    ∃ headers, sr' = { sr with headers := headers } := by
  have hparse : ∃ headers, (mkHttpRangeParse sr).2 = { sr with headers := headers } := by
    rw [mkHttpRangeParse_eq]
    rcases rangeForm sr.range with _ | (_ | _ | _)
    all_goals exact ⟨_, rfl⟩
  unfold rangeStep at h
  split at h
  · obtain ⟨headers, hparse⟩ := hparse
    simp only at h
    split at h
    · contradiction
    · split at h
      all_goals
        rw [hparse] at h
        exact ⟨_, (Option.some.inj h).symm⟩
  · exact ⟨sr.headers, (Option.some.inj h).symm⟩

theorem rangeStep_fileInfo {cfg : Config} {sr sr' : SessionRequest}
    (h : rangeStep cfg sr = some sr') : sr'.fileInfo = sr.fileInfo := by
  obtain ⟨headers, rfl⟩ := rangeStep_eq h
  rfl

/-- A range that leads to a 206, by form. -/
theorem rangeStep_206 {cfg : Config} {sr sr' : SessionRequest}
    (hstatus : sr.headers.status = mkHttpOk) (hr1 : sr.headers.ranges1 = -1) (hstep : rangeStep cfg sr = some sr')
    (h206 : sr'.headers.status = mkHttpPartial) :
    ∃ form, rangeForm sr.range = some form ∧ sr'.range = sr.range ∧ sr.range.data.isSome ∧
      sr'.headers.realLength = sr.headers.realLength ∧
      sr'.method = sr.method ∧ PartialHeaders sr.headers.contentLength sr'.headers form := by
  unfold rangeStep at hstep
  split at hstep
  · next hdata =>
      split at hstep
      next ret sr₁ hparse =>
      rw [mkHttpRangeParse_eq] at hparse
      split at hstep
      · contradiction
      · next hret =>
          cases hform : rangeForm sr.range with
          | none =>
              rw [hform] at hparse
              obtain ⟨rfl, rfl⟩ := Prod.mk.inj hparse
              contradiction
          | some form =>
              rw [hform] at hparse
              refine ⟨form, rfl, ?_⟩
              cases form with
              | suffix n =>
                  obtain ⟨rfl, rfl⟩ := Prod.mk.inj hparse
                  have hn : ¬ n ≤ 0 := fun hn => hret (by rw [if_pos hn]; decide)
                  rw [if_pos (.inr (by simp only; omega))] at hstep
                  obtain rfl := Option.some.inj hstep
                  exact ⟨rfl, hdata.1, rfl, rfl, by omega, rfl, rfl, by simp only [if_neg hn]⟩
              | between a b =>
                  obtain ⟨rfl, rfl⟩ := Prod.mk.inj hparse
                  have hab : ¬ (b ≤ 0 ∨ a > b) := fun hab => hret (by rw [if_pos hab]; decide)
                  rw [if_pos (.inr (by simp only; omega))] at hstep
                  obtain rfl := Option.some.inj hstep
                  exact ⟨rfl, hdata.1, rfl, rfl, by omega, by omega, rfl, rfl,
                    by simp only [if_neg hab]⟩
              | startingAt a =>
                  obtain ⟨rfl, rfl⟩ := Prod.mk.inj hparse
                  simp only [hr1] at hstep
                  by_cases ha : 0 ≤ a
                  · rw [if_pos (.inl ha)] at hstep
                    obtain rfl := Option.some.inj hstep
                    exact ⟨rfl, hdata.1, rfl, rfl, ha, rfl, rfl, rfl⟩
                  · rw [if_neg (by omega)] at hstep
                    obtain rfl := Option.some.inj hstep
                    simp [hstatus, mkHttpOk, mkHttpPartial] at h206
  · obtain rfl := Option.some.inj hstep
    simp [hstatus, mkHttpOk, mkHttpPartial] at h206

/-- The header of a 206 is the block of the request. -/
theorem mkHttpInitTail_header {ctx : Ctx} {sr : SessionRequest} {h : HeaderBlock}
    (hh : .header h ∈ (mkHttpInitTail ctx sr).out) (h206 : h.status = mkHttpPartial) :
    h = headerBlock ctx sr := by
  unfold mkHttpInitTail at hh
  simp only at hh
  split at hh
  · exact mkHeaderSend_header hh
  · split at hh
    · split at hh
      · rcases List.mem_append.mp hh with hh | hh
        · exact mkHeaderSend_header hh
        · rw [mkRequestError_header hh] at h206
          contradiction
      · rcases List.mem_append.mp hh with hh | hh
        · exact mkHeaderSend_header hh
        · exact absurd hh mkHttpSendFile_no_header
    · exact mkHeaderSend_header hh

/-- The end of `mk_http_init` with a 206: header and window describe the same
interval exactly when the numbers of the range lie within the file. -/
theorem mkHttpInitTail_206 (ctx : Ctx) (sr : SessionRequest) {form : RangeForm}
    (hget : sr.method = .get) (hresume : ctx.cfg.resume = true)
    (hp : PartialHeaders sr.fileInfo.size sr.headers form) (hb : form.Bounded)
    (hreal : sr.headers.realLength = sr.fileInfo.size) (hdata : sr.range.data.isSome) :
    RangeSent sr.fileInfo.size (mkHttpInitTail ctx sr) (headerBlock ctx sr) ↔
      RangeWithin sr.fileInfo.size form := by
  constructor
  · rintro ⟨first, last, hrange, hfirst, _, hlast, hlen, _, _⟩
    exact within_of_header hp hb hreal hrange hfirst hlast hlen
  · intro hw
    have hp' : PartialHeaders sr.fileInfo.size (mkHeaderSend ctx sr).sr.headers form := by
      cases form <;> exact hp
    obtain ⟨first, last, hrange, hfirst, hle, hlast, hcl, hlen, hset⟩ :=
      agree_of_within hp' hb hresume hreal hdata hw
    have htail : mkHttpInitTail ctx sr = Res.after (mkHeaderSend ctx sr).out
        (mkHttpSendFile ctx { (mkHeaderSend ctx sr).sr with
          bytesOffset := first, bytesToSend := last - first + 1 }) := by
      rw [mkHttpInitTail]
      simp only
      rw [if_neg (by omega), if_pos (.inl hget),
        show (mkHeaderSend ctx sr).sr.fileInfo.size = sr.fileInfo.size from rfl, hset]
      rfl
    obtain ⟨hoffset, hcount⟩ := mkHttpSendFile_window ctx
      { (mkHeaderSend ctx sr).sr with bytesOffset := first, bytesToSend := last - first + 1 }
    rw [htail]
    refine ⟨first, last, hrange, hfirst, hle, hlast, hlen, ?_, ?_⟩
    · rw [sentBytes_after_header]
      exact hoffset
    · rw [sentBytes_after_header]
      exact hcount

/-- `mk_http_init` from the range on. -/
theorem mkHttpInitRange_206 {ctx : Ctx} {sr : SessionRequest} {h : HeaderBlock}
    (hget : sr.method = .get) (hresume : ctx.cfg.resume = true) (hsize : 1 ≤ sr.fileInfo.size)
    (hreset : sr.headers.ranges1 = -1) (hstatus : sr.headers.status = mkHttpOk)
    (hcl : sr.headers.contentLength = sr.fileInfo.size)
    (hreal : sr.headers.realLength = sr.fileInfo.size)
    (hh : .header h ∈ (mkHttpInitRange ctx sr).out) (h206 : h.status = mkHttpPartial) :
    RangeSent sr.fileInfo.size (mkHttpInitRange ctx sr) h ↔
      ∃ form, rangeForm sr.range = some form ∧ RangeWithin sr.fileInfo.size form := by
  unfold mkHttpInitRange at hh ⊢
  cases hstep : rangeStep ctx.cfg sr with
  | none =>
      rw [hstep] at hh
      rw [mkRequestError_header hh] at h206
      contradiction
  | some sr₁ =>
      rw [hstep] at hh
      simp only at hh ⊢
      have hsize₁ : sr₁.fileInfo = sr.fileInfo := rangeStep_fileInfo hstep
      unfold mkHttpInitSend at hh ⊢
      rw [if_pos (by rw [hsize₁]; omega)] at hh ⊢
      by_cases hopen : ctx.sys.openFile (cstr sr₁.realPath) = true
      · rw [if_pos hopen] at hh ⊢
        obtain rfl := mkHttpInitTail_header hh h206
        obtain ⟨form, hform, hrange, hdata, hreal₁, hmethod, hp⟩ :=
          rangeStep_206 hstatus hreset hstep h206
        rw [hcl, ← hsize₁] at hp
        rw [← hsize₁]
        refine (mkHttpInitTail_206 ctx { sr₁ with fdFile := some (cstr sr₁.realPath) }
          (hmethod.trans hget) hresume hp (rangeForm_bounded hform)
          (hreal₁.trans (hreal.trans (by rw [hsize₁]))) (hrange ▸ hdata)).trans ?_
        constructor
        · exact fun hw => ⟨form, hform, hw⟩
        · rintro ⟨form', hform', hw⟩
          rw [hform] at hform'
          exact Option.some.inj hform' ▸ hw
      · rw [if_neg hopen] at hh
        rw [mkRequestError_header hh] at h206
        contradiction

/-- **Partial content**: when the response to a GET on a file of at least one byte
is a 206, then what it says and what is sent are one interval of the file if and
only if the numbers of the range lie within the file. -/
theorem partial_content_iff {ctx : Ctx} {sr : SessionRequest} {h : HeaderBlock}
    (hget : sr.method = .get) (hresume : ctx.cfg.resume = true) (hsize : 1 ≤ sr.fileInfo.size)
    (hreset : sr.headers.ranges1 = -1) (hh : .header h ∈ (mkHttpInitOk ctx sr).out)
    (h206 : h.status = mkHttpPartial) :
    RangeSent sr.fileInfo.size (mkHttpInitOk ctx sr) h ↔
      ∃ form, rangeForm sr.range = some form ∧ RangeWithin sr.fileInfo.size form := by
  unfold mkHttpInitOk at hh ⊢
  simp only [if_pos (show sr.method = .get ∨ sr.method = .head from .inl hget)] at hh ⊢
  refine mkHttpInitRange_206 ?_ hresume ?_ ?_ ?_ ?_ ?_ hh h206
  all_goals first | assumption | rfl

/- Two ranges on a file of a hundred bytes. -/

/-- A GET with the given `Range` value for a file of a hundred bytes. -/
def rangedRequest (range : Bytes) : SessionRequest :=
  { method := .get, range := ⟨some range, range.length⟩, fileInfo := { size := 100 } }

/-- `bytes=10-19` is served as it says. -/
theorem partial_content_ten_bytes :
    ∃ h, .header h ∈
        (mkHttpInitOk sampleCtx (rangedRequest (ascii "bytes=10-19".toList))).out ∧
      h.status = mkHttpPartial ∧
      RangeSent 100 (mkHttpInitOk sampleCtx (rangedRequest (ascii "bytes=10-19".toList))) h := by
  refine ⟨_, List.mem_cons_self, by decide, ?_⟩
  refine (@partial_content_iff sampleCtx (rangedRequest (ascii "bytes=10-19".toList)) _ rfl rfl
    (by decide) rfl List.mem_cons_self (by decide)).mpr ⟨.between 10 19, by decide, ?_⟩
  exact ⟨by decide, by decide, by decide⟩

/-- `bytes=0-9999` is announced as a 206 of ten thousand bytes. -/
theorem partial_content_past_end :
    ¬ ∀ (ctx : Ctx) (sr : SessionRequest) (h : HeaderBlock), sr.method = .get →
      ctx.cfg.resume = true → 1 ≤ sr.fileInfo.size → sr.headers.ranges1 = -1 →
      .header h ∈ (mkHttpInitOk ctx sr).out → h.status = mkHttpPartial →
      RangeSent sr.fileInfo.size (mkHttpInitOk ctx sr) h := by
  intro hall
  have hout : ∃ o ∈ (mkHttpInitOk sampleCtx (rangedRequest (ascii "bytes=0-9999".toList))).out,
      ∃ h, o = .header h ∧ h.status = mkHttpPartial ∧ h.contentRange = some (0, 9999, 100) :=
    ⟨_, List.mem_cons_self, _, rfl, by decide, by decide⟩
  obtain ⟨_, hh, h, rfl, h206, hprinted⟩ := hout
  obtain ⟨first, last, hrange, _, _, hlast, _⟩ := hall _ _ h rfl rfl (by decide) rfl hh h206
  simp only [hprinted, Option.some.injEq, Prod.mk.injEq] at hrange
  simp only [rangedRequest] at hlast
  omega

end Monkey
