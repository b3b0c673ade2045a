import Monkey.Http.Paths
import Monkey.Lib.Tokens

/-!
# Monkey.Http.Percent

The spellings of a path: the URI that writes each byte as `%XX`, and the URI that writes
each byte as it is behind a `%` sequence that does not decode.  `mk_utils_url_decode`
leads from both to the same bytes.
-/

namespace Monkey

/-- What `mk_request_uri_process` leaves of a first line: a range without NUL, in front of
a blank or a `?`. -/
structure RequestUri (uri : MkPointer) : Prop where
  noNul : 0 ∉ uri.text
  followed : ∃ c rest, uri.data = some (uri.text ++ c :: rest) ∧ (c = 0x20 ∨ c = 0x3f)

/-- A range that ends in front of a byte is followed by it. -/
theorem mkPointerCreate_followed {body : Bytes} {init stop : Int} (hinit : 0 ≤ init) (hlt : init < stop)
    (hsmall : body.length < 2 ^ 64) {c : UInt8} (hc : body[stop.toNat]? = some c) :
    ∃ rest, (mkPointerCreate body init stop).data =
      some ((mkPointerCreate body init stop).text ++ c :: rest) := by
  obtain ⟨hstop, hget⟩ := List.getElem?_eq_some_iff.mp hc
  have hlen : (mkPointerCreate body init stop).len = stop.toNat - init.toNat := by
    simp only [mkPointerCreate, if_pos hlt.ne]
    unfold toULong
    omega
  refine ⟨body.drop (stop.toNat + 1), ?_⟩
  rw [MkPointer.text, hlen]
  show some (body.drop init.toNat) = some ((body.drop init.toNat).take _ ++ c :: _)
  have hrest : (body.drop init.toNat).drop (stop.toNat - init.toNat) = c :: body.drop (stop.toNat + 1) := by
    rw [List.drop_drop, show init.toNat + (stop.toNat - init.toNat) = stop.toNat by omega,
      List.drop_eq_getElem_cons hstop, hget]
  rw [← hrest, List.take_append_drop]

theorem mkStringCharSearch_getElem? {s : Bytes} {c : UInt8} {len : Int} (h : 0 ≤ mkStringCharSearch s c len) :
    s[(mkStringCharSearch s c len).toNat]? = some c := by
  unfold mkStringCharSearch at h ⊢
  cases hfound : memchr s c (if len < 0 then strlen s else len.toNat) with
  | none =>
      rw [hfound] at h
      exact absurd h (by decide)
  | some k => exact memchr_getElem? hfound

/-- The URI of a first line is followed by the blank at its end, or by the `?` in it. -/
theorem mkRequestUriProcess_followed {body : Bytes} {uriInit uriEnd : Int} (protInit : Int)
    (sr : SessionRequest) (hinit : 0 ≤ uriInit) (hle : uriInit ≤ uriEnd) (hsmall : body.length < 2 ^ 64)
    (hblank : body[(uriEnd + 1).toNat]? = some 0x20) :
    ∃ c rest, (mkRequestUriProcess body uriInit uriEnd protInit sr).uri.data =
      some ((mkRequestUriProcess body uriInit uriEnd protInit sr).uri.text ++ c :: rest) ∧
        (c = 0x20 ∨ c = 0x3f) := by
  unfold mkRequestUriProcess
  dsimp only
  split
  · next hquery =>
      have hmark := mkStringCharSearch_getElem? hquery.1.le
      rw [List.getElem?_drop] at hmark
      generalize mkStringCharSearch (body.drop uriInit.toNat) 0x3f protInit = query at hquery hmark ⊢
      rw [show uriInit.toNat + query.toNat = (query + uriInit).toNat by omega] at hmark
      obtain ⟨rest, hdata⟩ := mkPointerCreate_followed hinit (by omega) hsmall hmark
      exact ⟨0x3f, rest, hdata, .inr rfl⟩
  · obtain ⟨rest, hdata⟩ := mkPointerCreate_followed hinit (by omega) hsmall hblank
    exact ⟨0x20, rest, hdata, .inl rfl⟩

theorem memrchr_getElem? {s : Bytes} {c : UInt8} {n k : Nat} (h : memrchr s c n = some k) : s[k]? = some c := by
  unfold memrchr at h
  obtain ⟨i, hi, rfl⟩ := Option.map_eq_some_iff.mp h
  obtain ⟨hlt, hc, -⟩ := List.findIdx?_eq_some_iff_getElem.mp hi
  rw [List.length_reverse] at hlt
  rw [List.getElem_reverse, List.getElem_take] at hc
  have hlen := List.length_take_le' n s
  rw [List.getElem?_eq_getElem (by omega), beq_iff_eq.mp hc]

/-- **The URI of a request** whose first line is accepted. -/
theorem mkRequestHeaderProcess_requestUri {cfg : Config} {sys : Sys} {sr : SessionRequest}
    (h : ¬ (mkRequestHeaderProcess cfg sys sr).1 < 0) (hline : (strchr (sr.body.data.getD []) 0x0a).isSome)
    (hsmall : (sr.body.data.getD []).length < 2 ^ 64) :
    RequestUri (mkRequestHeaderProcess cfg sys sr).2.uri := by
  obtain ⟨uri, huris, -, hnul⟩ := mkRequestHeaderProcess_uri h
  obtain ⟨rfl, -⟩ := Prod.mk.inj huris
  refine ⟨hnul hline, ?_⟩
  clear hnul huris
  unfold mkRequestHeaderProcess at h ⊢
  simp only at h ⊢
  generalize sr.body.data.getD [] = body at h hline hsmall ⊢
  generalize hlast : mkStringCharSearchR body 0x20 (indexOf sys body 0x0a) = last at h ⊢
  by_cases hend : last - 1 ≤ 0
  · exact absurd (by rw [if_pos hend]; exact (by decide : (-1 : Int) < 0)) h
  by_cases hinit : last - 1 < indexOf sys body 0x20 + 1
  · exact absurd (by rw [if_neg hend, if_pos hinit]; exact (by decide : (-1 : Int) < 0)) h
  rw [if_neg hend, if_neg hinit] at h ⊢
  obtain ⟨-, hblank⟩ := @lastBlank_lt sys body hline (by omega)
  obtain ⟨k, hk⟩ := Option.isSome_iff_exists.mp hblank
  have hindex : indexOf sys body 0x20 = k := by rw [indexOf, hk]; rfl
  have hat : body[(last - 1 + 1).toNat]? = some 0x20 := by
    unfold mkStringCharSearchR position at hlast
    cases hfound : memrchr body 0x20
        (if indexOf sys body 0x0a ≤ 0 then strlen body else (indexOf sys body 0x0a).toNat) with
    | none =>
        rw [hfound, Option.elim_none] at hlast
        omega
    | some q =>
        rw [hfound, Option.elim_some, Int.ofNat_eq_natCast] at hlast
        rw [show (last - 1 + 1).toNat = q by omega]
        exact memrchr_getElem? hfound
  have hfollowed := mkRequestUriProcess_followed (last - 1 + 2) sr (by omega) (not_lt.mp hinit) hsmall hat
  generalize mkRequestUriProcess body (indexOf sys body 0x20 + 1) (last - 1) (last - 1 + 2) sr = sr'
    at h hfollowed ⊢
  by_cases hlen : sr'.uri.len < 1
  · exact absurd (by rw [if_pos hlen]; exact (by decide : (-1 : Int) < 0)) h
  by_cases hprot : last - 1 + 2 = indexOf sys body 0x0a - 1
  · exact absurd (by rw [if_neg hlen, if_pos hprot]; exact (by decide : (-1 : Int) < 0)) h
  rw [if_neg hlen, if_neg hprot,
    mkRequestFieldsProcess_keeps (f := SessionRequest.uri) (fun _ _ _ _ _ _ _ _ _ _ => rfl)]
  have huri : ∀ sr : SessionRequest, (mkRequestUriDecode sr).uri = sr.uri := by
    intro sr
    unfold mkRequestUriDecode
    rfl
  rw [huri]
  split
  · exact hfollowed
  · exact hfollowed

theorem RequestUri.length_text {uri : MkPointer} (h : RequestUri uri) : uri.text.length = uri.len := by
  obtain ⟨c, rest, hdata, -⟩ := h.followed
  have hlen := congrArg List.length (show uri.text = (uri.data.getD []).take uri.len from rfl)
  rw [List.length_take, hdata, Option.getD_some, List.length_append, List.length_cons] at hlen
  omega

/-- The URI of the request handed to `mk_http_init`. -/
theorem httpInitRequest_requestUri {ctx : Ctx} {sr sr' : SessionRequest} (h : httpInitRequest ctx sr = some sr')
    (hline : (strchr (sr.body.data.getD []) 0x0a).isSome) (hsmall : (sr.body.data.getD []).length < 2 ^ 64) :
    RequestUri sr'.uri ∧ sr'.uriProcessed = processedUri sr'.uri := by
  unfold httpInitRequest at h
  split at h
  next status sr₁ hprocess =>
  split at h
  · contradiction
  · next hstatus =>
      have hok : ¬ (mkRequestHeaderProcess ctx.cfg ctx.sys { sr with hostConf := ctx.cfg.defaultHost }).1 < 0 := by
        rwa [hprocess]
      have hrequest := mkRequestHeaderProcess_requestUri hok hline hsmall
      obtain ⟨uri, huris, -⟩ := mkRequestHeaderProcess_uri hok
      rw [hprocess] at huris hrequest
      obtain ⟨⟨hkept, -⟩, -⟩ := passProcess_spec h
      have hboth : sr'.uris = (uri, processedUri uri) := hkept.trans huris
      obtain ⟨rfl, hprocessed⟩ := Prod.mk.inj hboth
      obtain ⟨hsame, -⟩ := Prod.mk.inj huris
      exact ⟨hsame ▸ hrequest, hprocessed⟩

/-! ## every byte encoded -/

/-- The hexadecimal digit of a number below 16. -/
def hexDigit (n : Nat) : UInt8 := UInt8.ofNat (if n < 10 then 0x30 + n else 0x37 + n)

def percentByte (c : UInt8) : Bytes := [0x25, hexDigit (c.toNat / 16), hexDigit (c.toNat % 16)]

/-- A text with each byte written as `%XX`. -/
def percentEncode (s : Bytes) : Bytes := s.flatMap percentByte

/-- The request for a text in this spelling. -/
def percentUri (s rest : Bytes) : MkPointer := ⟨some (percentEncode s ++ rest), 3 * s.length⟩

theorem percentEncode_cons (c : UInt8) (s : Bytes) :
    percentEncode (c :: s) = 0x25 :: hexDigit (c.toNat / 16) :: hexDigit (c.toNat % 16) :: percentEncode s := rfl

theorem length_percentEncode (s : Bytes) : (percentEncode s).length = 3 * s.length := by
  induction s with
  | nil => rfl
  | cons c s ih =>
      rw [percentEncode_cons, List.length_cons, List.length_cons, List.length_cons, ih, List.length_cons]
      omega

/-- The bytes of an encoded text are `%` and digits. -/
theorem mem_percentEncode {s : Bytes} {d : UInt8} (h : d ∈ percentEncode s) :
    d = 0x25 ∨ ∃ n < 16, d = hexDigit n := by
  obtain ⟨c, -, hd⟩ := List.mem_flatMap.mp h
  have hc := c.toNat_lt
  rcases List.mem_cons.mp hd with rfl | hd
  · exact .inl rfl
  rcases List.mem_cons.mp hd with rfl | hd
  · exact .inr ⟨_, by omega, rfl⟩
  · rw [List.mem_singleton.mp hd]
    exact .inr ⟨_, by omega, rfl⟩

theorem zero_notMem_percentEncode (s : Bytes) : 0 ∉ percentEncode s := by
  intro h
  rcases mem_percentEncode h with h | ⟨n, hn, h⟩
  · exact absurd h (by decide)
  · have hall : ∀ n < 16, (0 : UInt8) ≠ hexDigit n := by decide
    exact hall n hn h

theorem percentUri_text (s rest : Bytes) : (percentUri s rest).text = percentEncode s := by
  rw [MkPointer.text, percentUri, ← length_percentEncode]
  exact List.take_left

theorem percentUri_request (s rest : Bytes) {c : UInt8} (hc : c = 0x20 ∨ c = 0x3f) :
    RequestUri (percentUri s (c :: rest)) where
  noNul := by
    rw [percentUri_text]
    exact zero_notMem_percentEncode s
  followed := ⟨c, rest, by rw [percentUri_text]; rfl, hc⟩

theorem mkUtilsHex2int_hexDigit (c : UInt8) :
    mkUtilsHex2int (cstr [hexDigit (c.toNat / 16), hexDigit (c.toNat % 16)]) 0 = c.toNat := by
  have hall : ∀ n < 256, mkUtilsHex2int (cstr [hexDigit (n / 16), hexDigit (n % 16)]) 0 = n := by decide +kernel
  exact hall c.toNat c.toNat_lt

/-- **The loop** gives an encoded text back. -/
theorem mkUtilsUrlDecodeLoop_percentEncode (s : Bytes) : mkUtilsUrlDecodeLoop (percentEncode s) = some s := by
  induction s with
  | nil => rfl
  | cons c s ih =>
      rw [percentEncode_cons, mkUtilsUrlDecodeLoop, if_pos rfl]
      dsimp only
      rw [mkUtilsHex2int_hexDigit, if_neg (by omega), ih, Option.map_some, Int.toNat_natCast, UInt8.ofNat_toNat]

/-- A byte in front is found, unless the length is none to the search. -/
theorem mkStringCharSearch_head {c : UInt8} (hc : c ≠ 0) (s : Bytes) {len : Nat} (hlen : toInt len ≠ 0) :
    mkStringCharSearch (c :: s) c (toInt len) = 0 := by
  have hfound : ∀ n, 0 < n → memchr (c :: s) c n = some 0 := by
    intro n hn
    obtain ⟨n, rfl⟩ := Nat.exists_eq_add_of_lt hn
    simp [memchr, List.findIdx?_cons]
  unfold mkStringCharSearch
  rw [hfound _ ?_]
  · rfl
  · split
    · rw [strlen, cstr, List.takeWhile_cons_of_pos (by simpa using hc)]
      exact Nat.succ_pos _
    · omega

/-- **Every path can be asked for in this spelling.**  The search for a `%` takes the
length for an `int`, and finds none in a length that is a multiple of `2 ^ 32`. -/
theorem uriText_percentUri {s rest : Bytes} (hnul : 0 ∉ s) (hlen : ¬ 2 ^ 32 ∣ s.length) :
    uriText (percentUri s rest) = s := by
  have hne : s ≠ [] := by
    rintro rfl
    exact hlen (dvd_zero _)
  have hint : toInt (3 * s.length : Nat) ≠ 0 := by
    intro h0
    have hdvd : 2 ^ 32 ∣ 3 * s.length := by exact_mod_cast Int.dvd_of_emod_eq_zero (toInt_eq_zero h0)
    exact hlen (Nat.Coprime.dvd_of_dvd_mul_left (by norm_num) hdvd)
  obtain ⟨c, t, rfl⟩ := List.exists_cons_of_ne_nil hne
  unfold uriText mkUtilsUrlDecode
  rw [percentUri_text, mkUtilsUrlDecodeLoop_percentEncode]
  have hsearch : ¬ mkStringCharSearch ((percentUri (c :: t) rest).data.getD []) 0x25
      (toInt (percentUri (c :: t) rest).len) < 0 := by
    rw [percentUri, Option.getD_some, percentEncode_cons, List.cons_append,
      mkStringCharSearch_head (by decide) _ hint]
    decide
  rw [if_neg hsearch, Option.map_some, Option.elim_some, cstr_append hnul]
  have hzeros : ∀ n, cstr (List.replicate n 0) = [] := by
    intro n
    cases n <;> rfl
  rw [hzeros, List.append_nil]

/-! ## nothing encoded -/

/-- The start of a text with a sequence that does not decode. -/
def undecodable : Bytes := ascii "/%zz".toList

/-- The request for a text behind `undecodable`, each byte as it is. -/
def plainUri (s rest : Bytes) : MkPointer := ⟨some (undecodable ++ s ++ rest), (undecodable ++ s).length⟩

theorem plainUri_text (s rest : Bytes) : (plainUri s rest).text = undecodable ++ s := List.take_left

theorem plainUri_request {s : Bytes} (rest : Bytes) (hnul : 0 ∉ s) {c : UInt8} (hc : c = 0x20 ∨ c = 0x3f) :
    RequestUri (plainUri s (c :: rest)) where
  noNul := by
    rw [plainUri_text, List.mem_append, not_or]
    exact ⟨by decide, hnul⟩
  followed := ⟨c, rest, by rw [plainUri_text]; rfl, hc⟩

/-- What does not decode is left as it is. -/
theorem uriText_plainUri (s rest : Bytes) : uriText (plainUri s rest) = undecodable ++ s := by
  have hloop : mkUtilsUrlDecodeLoop (undecodable ++ s) = none := by
    show mkUtilsUrlDecodeLoop (0x2f :: 0x25 :: 0x7a :: 0x7a :: s) = none
    rw [mkUtilsUrlDecodeLoop, if_neg (by decide), mkUtilsUrlDecodeLoop, if_pos rfl]
    rfl
  have hdecode : mkUtilsUrlDecode (plainUri s rest) = none := by
    unfold mkUtilsUrlDecode
    rw [plainUri_text, hloop]
    exact ite_self none
  rw [uriText, hdecode, Option.elim_none, plainUri_text]

end Monkey
