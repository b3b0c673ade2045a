import Monkey.Http.HeaderText
import Monkey.Http.Reply
import Monkey.Http.Window
import Monkey.Lib.Responses

/-!
# Monkey.Http.Announce

Where a client finds the end of an answer: the length that the header of a plan announces, against
the bytes that the plan has the server send behind it.

A client looks for `Content-Length` by its name, so nothing in front of it may have that name
(`NotLength`): the fixed fields have not, and of the rows of the plugins it is asked.
-/

namespace Monkey

/-! ## the length in a header -/

/-- The statuses of the server that have no body. -/
def bodiless (status : Int) : Bool := isBodiless status.toNat

/-- A name that says nothing about the length of a body. -/
def NotLength (name : Bytes) : Prop :=
  name.map toupper ≠ transferEncodingName ∧ name.map toupper ≠ contentLengthName
deriving Decidable

section

variable {w : HeaderThread} {server : Bytes} {now timeout : Int} {b : HeaderBlock} {rows : List (Bytes × Bytes)}

/-- The names of the fields in front of the length. -/
def namesBefore : List Bytes :=
  [ascii "Server".toList, ascii "Date".toList, ascii "Last-Modified".toList, ascii "Keep-Alive".toList,
    ascii "Connection".toList, ascii "Location".toList, ascii "Content-Type".toList, ascii "Content-Encoding".toList]

/-- The fields in front of the length. -/
def fieldsBefore (w : HeaderThread) (server : Bytes) (now timeout : Int) (b : HeaderBlock) : List (Bytes × Bytes) :=
  [(ascii "Server".toList, server), (ascii "Date".toList, Time.rfc1123 now)] ++
  lastModifiedFields b.lastModified ++ connectionFields timeout b.connection ++ locationFields b.location ++
  contentTypeFields b.contentType ++ contentEncodingFields w.contentEncoding

theorem names_fieldsBefore {f : Bytes × Bytes} (hf : f ∈ fieldsBefore w server now timeout b) : f.1 ∈ namesBefore := by
  have hmodified : f ∈ lastModifiedFields b.lastModified → f.1 = ascii "Last-Modified".toList := by
    cases b.lastModified <;> simp +contextual [lastModifiedFields]
  have hconnection : f ∈ connectionFields timeout b.connection →
      f.1 = ascii "Keep-Alive".toList ∨ f.1 = ascii "Connection".toList := by
    cases b.connection <;> simp only [connectionFields, List.mem_cons, List.not_mem_nil, or_false, false_imp_iff]
    · rintro (rfl | rfl)
      · exact .inl rfl
      · exact .inr rfl
    · rintro rfl
      exact .inr rfl
  have hlocation : f ∈ locationFields b.location → f.1 = ascii "Location".toList := by
    cases b.location <;> simp +contextual [locationFields]
  have htype : f ∈ contentTypeFields b.contentType → f.1 = ascii "Content-Type".toList := by
    cases b.contentType <;> simp +contextual [contentTypeFields]
  have hencoding : f ∈ contentEncodingFields w.contentEncoding → f.1 = ascii "Content-Encoding".toList := by
    rw [contentEncodingFields]
    split <;> simp +contextual
  simp only [fieldsBefore, List.mem_append, List.mem_cons, List.not_mem_nil, or_false] at hf
  rcases hf with (((((rfl | rfl) | hf) | hf) | hf) | hf) | hf
  · simp [namesBefore]
  · simp [namesBefore]
  · simp [namesBefore, hmodified hf]
  · rcases hconnection hf with h | h <;> simp [namesBefore, h]
  · simp [namesBefore, hlocation hf]
  · simp [namesBefore, htype hf]
  · simp [namesBefore, hencoding hf]

theorem notLength_of_mem_namesBefore : ∀ name ∈ namesBefore, NotLength name := by decide

/-- The code of a status of the table. -/
theorem statusCode_statusLine {status : Int} (h : status ∈ statusResponse) :
    statusCode (statusLine w status) = status.toNat := by
  have hcustom : status ≠ mkCustomStatus := by
    rintro rfl
    exact absurd h (by decide)
  have hpos : 0 ≤ status := (by decide : ∀ s ∈ statusResponse, (0 : Int) ≤ s) status h
  have hcodes : statusReasons.map (·.1) = statusResponse := rfl
  rw [← hcodes] at h
  obtain ⟨e, he, rfl⟩ := List.mem_map.mp h
  obtain ⟨e', hfind⟩ := Option.isSome_iff_exists.mp
    (List.find?_isSome.mpr ⟨e, he, beq_self_eq_true e.1⟩ : (statusReasons.find? fun x => x.1 == e.1).isSome = true)
  have hsame : e'.1 = e.1 := by simpa using List.find?_some hfind
  have htext : statusText e'.1 e'.2 =
      ascii "HTTP/1.1".toList ++ 0x20 :: (decimalInt e.1 ++ 0x20 :: ascii e'.2.toList) := by
    rw [statusText, hsame]
    simp [ascii]
  have hname : ∀ c ∈ ascii "HTTP/1.1".toList, decide (c ≠ 0x20) = true := by decide +kernel
  rw [statusLine, if_neg hcustom, hfind, Option.map_some, Option.getD_some, htext, statusCode,
    List.dropWhile_append_of_pos hname, List.dropWhile_cons_of_neg (by simp), List.drop_succ_cons, List.drop_zero,
    decimalInt, if_neg (by omega), digits_append isdigit_of_mem_decimal (by simp [isdigit]), digits_decimal]
  omega

/-- **What a client takes the length to be** from the header of a block. -/
theorem bodyLength_headerFields (hstatus : b.status ∈ statusResponse) (hchunked : b.chunked = false)
    (hrows : ∀ row ∈ rows, NotLength row.1) (head : Bool) :
    bodyLength head (statusLine w b.status) (headerFields w server now timeout b rows) =
      if head ∨ bodiless b.status then some 0
      else b.contentLength.bind fun n => if 0 ≤ n then some n.toNat else none := by
  have hbefore : ∀ f ∈ fieldsBefore w server now timeout b, NotLength f.1 :=
    fun f hf => notLength_of_mem_namesBefore f.1 (names_fieldsBefore hf)
  have hrange : ∀ f ∈ contentRangeFields b.contentRange, NotLength f.1 := by
    intro f hf
    have hname : f.1 = ascii "Content-Range".toList := by
      revert hf
      cases b.contentRange <;> simp +contextual [contentRangeFields]
    rw [hname]
    decide
  have hlength : ∀ f ∈ contentLengthFields b.contentLength, f.1.map toupper ≠ transferEncodingName := by
    intro f hf
    have hname : f.1 = ascii "Content-Length".toList := by
      revert hf
      cases b.contentLength <;> simp +contextual [contentLengthFields]
    rw [hname]
    decide
  have hfields : headerFields w server now timeout b rows = fieldsBefore w server now timeout b ++
      (contentLengthFields b.contentLength ++ (contentRangeFields b.contentRange ++ rows)) := by
    simp only [headerFields, fieldsBefore, hchunked, chunkedFields, Bool.false_eq_true, if_false, List.append_nil,
      List.append_assoc]
  have hafter : ∀ f ∈ contentRangeFields b.contentRange ++ rows, NotLength f.1 :=
    fun f hf => (List.mem_append.mp hf).elim (hrange f) (hrows f)
  have hencoding : fieldValue transferEncodingName (headerFields w server now timeout b rows) = none := by
    rw [hfields, fieldValue_append_of_ne fun f hf => (hbefore f hf).1, fieldValue_append_of_ne hlength]
    exact fieldValue_eq_none fun f hf => (hafter f hf).1
  have hvalue : fieldValue contentLengthName (headerFields w server now timeout b rows) =
      b.contentLength.map decimalInt := by
    rw [hfields, fieldValue_append_of_ne fun f hf => (hbefore f hf).2]
    cases b.contentLength with
    | none => exact fieldValue_eq_none fun f hf => (hafter f hf).2
    | some n => exact fieldValue_cons_self (show (ascii "Content-Length".toList).map toupper = contentLengthName by decide) _
  rw [bodyLength, statusCode_statusLine hstatus, hencoding, hvalue, bodiless]
  congr 1
  cases b.contentLength with
  | none => rfl
  | some n => exact numberOf_decimalInt n

end

/-! ## what a plan has not touched -/

/-- The fields of a request that say how long its answer is, and its method. -/
def SessionRequest.outset (sr : SessionRequest) : Method × Int × Int × Int × Int :=
  (sr.method, sr.headers.transferEncoding, sr.headers.contentLength, sr.headers.ranges0, sr.headers.ranges1)

/-- The range of a request, if it is looked at. -/
def rangeAsked (cfg : Config) (sr : SessionRequest) : Option RangeForm :=
  if cfg.resume = true ∧ sr.method = .get then rangeForm sr.range else none

/-- What a range leaves in the headers of a file of `size` bytes. -/
def RangeForm.Left (size : Int) (h : ResponseHeaders) : RangeForm → Prop
  | .suffix last => 0 < last ∧ h.ranges0 = -1 ∧ h.ranges1 = last ∧ h.contentLength = last
  | .between first last => 0 < last ∧ first ≤ last ∧ h.ranges0 = first ∧ h.ranges1 = last ∧
      h.contentLength = toInt (cAbs (toInt (last - first)) + 1)
  | .startingAt first => h.ranges0 = first ∧ h.ranges1 = -1 ∧ h.contentLength = size - first

/-- The numbers of a form are not below those of an `int`. -/
def RangeForm.Lower : RangeForm → Prop
  | .startingAt first => -2 ^ 31 ≤ first
  | _ => True

theorem rangeForm_lower {range : MkPointer} {form : RangeForm} (h : rangeForm range = some form) : form.Lower := by
  unfold rangeForm at h
  split at h
  · cases h
  · unfold rangeFormAt at h
    split_ifs at h
    all_goals obtain rfl := Option.some.inj h
    · trivial
    · trivial
    · exact (rangeNumber_bounds _).1

/-- The headers of a file that is sent. -/
def SessionRequest.Announces (cfg : Config) (sr : SessionRequest) : Prop :=
  match rangeAsked cfg sr with
  | none => sr.headers.ranges0 = -1 ∧ sr.headers.ranges1 = -1 ∧ sr.headers.contentLength = sr.fileInfo.size
  | some form => form.Left sr.fileInfo.size sr.headers ∧ form.Bounded ∧ form.Lower

theorem SessionRequest.Announces.of_whole {cfg : Config} {sr : SessionRequest} (h : rangeAsked cfg sr = none)
    (hranges : sr.headers.ranges0 = -1 ∧ sr.headers.ranges1 = -1)
    (hlength : sr.headers.contentLength = sr.fileInfo.size) : sr.Announces cfg := by
  rw [SessionRequest.Announces, h]
  exact ⟨hranges.1, hranges.2, hlength⟩

/-- The length of the answer is set when it is sent: that of a file, or of a page. -/
def Plan.lengthKnown : Plan → Bool
  | .send _ => true
  | .error status sr => (defaultPage status sr).isSome
  | _ => false

/-- A plan made for a request whose answer has not been begun. -/
structure Plan.Outset (cfg : Config) (m : Method) (plan : Plan) : Prop where
  method : plan.sr.method = m
  encoding : plan.sr.headers.transferEncoding = -1
  length : plan.lengthKnown = false → plan.sr.headers.contentLength = -1
  announces : ∀ sr, plan = .send sr → m ≠ .head →
    (m = .get ∨ m = .post) ∧ 0 ≤ sr.fileInfo.size ∧ sr.Announces cfg

section

variable {ctx : Ctx} {sr : SessionRequest} {m : Method}

theorem Plan.outset_of_unknown {plan : Plan} (h : plan.sr.outset = (m, -1, -1, -1, -1))
    (hsend : ∀ sr, plan ≠ .send sr) : plan.Outset ctx.cfg m := by
  simp only [SessionRequest.outset, Prod.mk.injEq] at h
  exact ⟨h.1, h.2.1, fun _ => h.2.2.1, fun sr heq => absurd heq (hsend sr)⟩

theorem Plan.outset_of_page {status : Int} (hm : sr.method = m) (henc : sr.headers.transferEncoding = -1)
    (hpage : (defaultPage status sr).isSome = true) : (Plan.error status sr).Outset ctx.cfg m :=
  ⟨hm, henc, fun h => (by rw [Plan.lengthKnown, hpage] at h; cases h), by rintro _ ⟨⟩⟩

theorem planSend_outset (hm : sr.method = m) (henc : sr.headers.transferEncoding = -1)
    (hann : m ≠ .head → (m = .get ∨ m = .post) ∧ 0 ≤ sr.fileInfo.size ∧ sr.Announces ctx.cfg) :
    (planSend ctx sr).Outset ctx.cfg m := by
  have hsend : ∀ file, (Plan.send { sr with fdFile := file }).Outset ctx.cfg m := fun file =>
    ⟨hm, henc, fun h => (by cases h), fun sr' heq hhead => (by cases heq; exact hann hhead)⟩
  unfold planSend
  split
  · split
    · exact hsend _
    · exact Plan.outset_of_page hm henc rfl
  · exact hsend sr.fdFile

/-- A range that is accepted leaves its form in the headers. -/
theorem rangeStep_left {cfg : Config} {sr' : SessionRequest} (hrange : sr.range.data.isSome = true ∧ cfg.resume = true)
    (hlast : sr.headers.ranges1 = -1) (hlength : sr.headers.contentLength = sr.fileInfo.size)
    (h : rangeStep cfg sr = some sr') : ∃ form headers, rangeForm sr.range = some form ∧
      sr' = { sr with headers := headers } ∧ form.Left sr.fileInfo.size headers ∧
      headers.transferEncoding = sr.headers.transferEncoding := by
  rw [rangeStep, if_pos hrange, mkHttpRangeParse_eq] at h
  cases hform : rangeForm sr.range with
  | none => simp [hform, applyRange] at h
  | some form =>
      rw [hform] at h
      -- with or without the status of a partial answer
      cases form with
      | suffix last =>
          by_cases hbad : last ≤ 0
          · simp [applyRange, hbad] at h
          · simp only [applyRange, if_neg hbad, lt_irrefl, if_false] at h
            split at h
            all_goals exact ⟨_, _, rfl, (Option.some.inj h).symm, ⟨by omega, rfl, rfl, rfl⟩, rfl⟩
      | between first last =>
          by_cases hbad : last ≤ 0 ∨ first > last
          · simp [applyRange, hbad] at h
          · simp only [applyRange, if_neg hbad, lt_irrefl, if_false] at h
            split at h
            all_goals exact ⟨_, _, rfl, (Option.some.inj h).symm, ⟨by omega, by omega, rfl, rfl, rfl⟩, rfl⟩
      | startingAt first =>
          simp only [applyRange, lt_irrefl, if_false] at h
          change (if first ≥ 0 ∨ sr.headers.ranges1 ≥ 0 then some _ else some _) = some sr' at h
          split at h
          all_goals exact ⟨_, _, rfl, (Option.some.inj h).symm, ⟨rfl, hlast, by rw [hlength]⟩, rfl⟩

theorem planRange_outset (hm : sr.method = m) (henc : sr.headers.transferEncoding = -1)
    (hranges : sr.headers.ranges0 = -1 ∧ sr.headers.ranges1 = -1)
    (hlength : sr.headers.contentLength = sr.fileInfo.size) (hsize : 0 ≤ sr.fileInfo.size)
    (hasked : m = .get ∨ m = .head) : (planRange ctx sr).Outset ctx.cfg m := by
  unfold planRange
  cases hstep : rangeStep ctx.cfg sr with
  | none =>
      have hkept : ∃ headers, (mkHttpRangeParse sr).2 = { sr with headers := headers } ∧
          headers.transferEncoding = sr.headers.transferEncoding := by
        rw [mkHttpRangeParse_eq]
        rcases rangeForm sr.range with _ | (_ | _ | _) <;> exact ⟨_, rfl, rfl⟩
      obtain ⟨headers, hparse, hsame⟩ := hkept
      simp only
      rw [hparse]
      exact Plan.outset_of_page hm (hsame.trans henc) rfl
  | some sr' =>
      by_cases hrange : sr.range.data.isSome = true ∧ ctx.cfg.resume = true
      · obtain ⟨form, headers, hform, rfl, hleft, hsame⟩ := rangeStep_left hrange hranges.2 hlength hstep
        refine planSend_outset hm (hsame.trans henc) fun hhead =>
          ⟨.inl (hasked.resolve_right hhead), hsize, ?_⟩
        have hget : rangeAsked ctx.cfg { sr with headers := headers } = some form :=
          (if_pos ⟨hrange.2, hm.trans (hasked.resolve_right hhead)⟩).trans hform
        rw [SessionRequest.Announces, hget]
        exact ⟨hleft, rangeForm_bounded hform, rangeForm_lower hform⟩
      · rw [rangeStep, if_neg hrange] at hstep
        obtain rfl := Option.some.inj hstep
        refine planSend_outset hm henc fun hhead =>
          ⟨.inl (hasked.resolve_right hhead), hsize, .of_whole ?_ hranges hlength⟩
        rw [rangeAsked]
        split
        · have hdata : sr.range.data = none := by
            by_contra hdata
            exact hrange ⟨Option.isSome_iff_ne_none.mpr hdata, ‹_ ∧ _›.1⟩
          rw [rangeForm, hdata]
        · rfl

theorem planOk_outset (h : sr.outset = (m, -1, -1, -1, -1)) (hsize : 0 ≤ sr.fileInfo.size)
    (hserved : m = .get ∨ m = .post ∨ m = .head) : (planOk ctx sr).Outset ctx.cfg m := by
  simp only [SessionRequest.outset, Prod.mk.injEq] at h
  obtain ⟨hm, henc, -, hr0, hr1⟩ := h
  unfold planOk
  simp only
  split
  · exact planRange_outset hm henc ⟨hr0, hr1⟩ rfl hsize (by rw [← hm]; assumption)
  · next hother =>
      have hpost : m = .post := by
        rcases hserved with hget | hpost | hhead
        · exact absurd (.inl (hm.trans hget)) hother
        · exact hpost
        · exact absurd (.inr (hm.trans hhead)) hother
      refine planSend_outset hm henc fun _ => ⟨.inr hpost, hsize, .of_whole ?_ ⟨hr0, hr1⟩ rfl⟩
      exact if_neg fun hasked => hother (.inl hasked.2)

theorem planServe_outset (h : sr.outset = (m, -1, -1, -1, -1)) : (planServe ctx sr).Outset ctx.cfg m := by
  have hm : sr.method = m := congrArg Prod.fst h
  have henc : sr.headers.transferEncoding = -1 := congrArg (fun o => o.2.1) h
  unfold planServe
  split
  · exact Plan.outset_of_page hm henc rfl
  next hmethod =>
    split
    · exact Plan.outset_of_page hm henc rfl
    split
    · exact Plan.outset_of_page hm henc rfl
    split
    · exact Plan.outset_of_page hm henc rfl
    simp only
    split
    · exact Plan.outset_of_unknown h (by rintro _ ⟨⟩)
    · rw [hm] at hmethod
      refine planOk_outset h (by simp only; omega) ?_
      cases m <;> simp at hmethod ⊢

theorem stage30Loop_outset (stm : List (SessionRequest → Stage30Answer)) (sr : SessionRequest) :
    (stage30Loop stm sr).2.outset = sr.outset := by
  induction stm generalizing sr with
  | nil => rfl
  | cons s30 stm ih =>
      rw [stage30Loop]
      split
      · exact ih _
      · rfl

theorem mkPluginStage30_outset (sys : Sys) (sr : SessionRequest) :
    (mkPluginStage30 sys sr).2.outset = sr.outset := by
  unfold mkPluginStage30
  split
  · rfl
  · exact stage30Loop_outset _ _

theorem planStage30_outset (h : sr.outset = (m, -1, -1, -1, -1)) : (planStage30 ctx sr).Outset ctx.cfg m := by
  unfold planStage30
  split
  · exact planServe_outset h
  · have hkept := (mkPluginStage30_outset ctx.sys sr).trans h
    generalize mkPluginStage30 ctx.sys sr = answer at hkept
    rcases answer with ⟨ret, sr'⟩
    cases ret
    · exact planServe_outset hkept
    all_goals exact Plan.outset_of_unknown hkept (by rintro _ ⟨⟩)

theorem planLink_outset (h : sr.outset = (m, -1, -1, -1, -1)) : (planLink ctx sr).Outset ctx.cfg m := by
  unfold planLink
  split
  · exact Plan.outset_of_unknown h (by rintro _ ⟨⟩)
  · exact planStage30_outset h

theorem planFound_outset (h : sr.outset = (m, -1, -1, -1, -1)) : (planFound ctx sr).Outset ctx.cfg m := by
  unfold planFound
  split
  · split
    · exact Plan.outset_of_unknown h (by rintro _ ⟨⟩)
    · cases mkRequestIndex ctx sr.realPath with
      | some path => exact planLink_outset h
      | none => exact planLink_outset h
  · exact planLink_outset h

theorem planInit_outset (h : sr.outset = (m, -1, -1, -1, -1)) : (planInit ctx sr).Outset ctx.cfg m := by
  have hcompose : (composeRealPath sr).outset = (m, -1, -1, -1, -1) := by
    rw [← h]
    unfold composeRealPath
    split <;> rfl
  unfold planInit
  simp only
  split
  · exact Plan.outset_of_unknown hcompose (by rintro _ ⟨⟩)
  split
  · exact planFound_outset hcompose
  · have hkept := (mkPluginStage30_outset ctx.sys { composeRealPath sr with
      fileInfo := (mkFileGetInfo ctx.sys (cstr (composeRealPath sr).realPath)
        (composeRealPath sr).fileInfo).2 }).trans hcompose
    generalize mkPluginStage30 ctx.sys _ = answer at hkept
    rcases answer with ⟨ret, sr'⟩
    cases ret
    · simp only
      split
      · exact Plan.outset_of_unknown hkept (by rintro _ ⟨⟩)
      split
      · exact Plan.outset_of_unknown hkept (by rintro _ ⟨⟩)
      · exact planFound_outset hkept
    all_goals exact Plan.outset_of_unknown hkept (by rintro _ ⟨⟩)

theorem planMethod_outset (h : sr.outset = (m, -1, -1, -1, -1)) : (planMethod ctx sr).Outset ctx.cfg m := by
  have hhttp : ∀ sr' : SessionRequest, sr'.outset = (m, -1, -1, -1, -1) → (planHttp ctx sr').Outset ctx.cfg m := by
    intro sr' h'
    unfold planHttp
    split
    · exact Plan.outset_of_unknown h' (by rintro _ ⟨⟩)
    · exact planInit_outset h'
  unfold planMethod
  split
  · split
    · exact Plan.outset_of_unknown h (by rintro _ ⟨⟩)
    · next hret =>
        rcases mkMethodParseData_cases ctx sr with ⟨toc, type, length, hdata⟩ | ⟨_, _, _, hdata⟩
        · rw [hdata]
          exact hhttp _ h
        · rw [hdata] at hret
          exact absurd (by decide : (-1 : Int) ≠ 0) hret
  · exact hhttp sr h

theorem planProcess_outset (h : sr.outset = (m, -1, -1, -1, -1)) : (planProcess ctx sr).Outset ctx.cfg m := by
  have hhome : ∀ sr' : SessionRequest, sr'.outset = (m, -1, -1, -1, -1) → (planHome ctx sr').Outset ctx.cfg m := by
    intro sr' h'
    unfold planHome
    split
    · split
      · exact Plan.outset_of_unknown h' (by rintro _ ⟨⟩)
      · next hret =>
          rcases mkUserInit_cases ctx sr' with ⟨path, huser, _⟩ | ⟨huser, _⟩ | ⟨huser, _⟩
          · rw [huser]
            exact planMethod_outset h'
          all_goals
            rw [huser] at hret
            exact absurd (by decide : (-1 : Int) ≠ 0) hret
    · exact planMethod_outset h'
  unfold planProcess
  split
  · exact Plan.outset_of_unknown h (by rintro _ ⟨⟩)
  split
  · exact Plan.outset_of_unknown h (by rintro _ ⟨⟩)
  split
  · exact Plan.outset_of_unknown h (by rintro _ ⟨⟩)
  · cases sr.host.data with
    | some _ => exact hhome _ h
    | none => exact hhome _ h

end

/-- The plan of a request whose answer has not been begun. -/
theorem mkRequestPlan_outset {ctx : Ctx} {sr : SessionRequest} {m : Method} (h : sr.outset = (m, -1, -1, -1, -1)) :
    (mkRequestPlan ctx sr).Outset ctx.cfg m := by
  have hkept : (mkRequestHeaderProcess ctx.cfg ctx.sys { sr with hostConf := ctx.cfg.defaultHost }).2.outset =
      (m, -1, -1, -1, -1) :=
    (mkRequestHeaderProcess_keeps (f := SessionRequest.outset) (fun _ _ _ _ _ => rfl)
      (fun _ _ _ _ _ _ _ _ _ _ => rfl) ctx.cfg ctx.sys _).trans h
  unfold mkRequestPlan
  simp only
  split
  · exact Plan.outset_of_unknown hkept (by rintro _ ⟨⟩)
  · exact planProcess_outset hkept

end Monkey
