import Monkey.Request.Bounds
import Monkey.Request.Table

/-!
# Monkey.Request.HostPort

A `Host` value with a port.  The length of the text behind the last colon is narrowed to a
`short int` before it is compared with the size of the port buffer, and the number is only
compared with zero: a text of more than 65535 bytes is cut down to its first few, one of
32768 or more can give `memcpy` a negative length, and five digits can be too many.
-/

namespace Monkey

/-! ## the host part -/

section host

variable {before t tail : Bytes}

/-- A `Host` value with a colon, in front of the rest of the block. -/
def hostValue (before t tail : Bytes) : MkPointer :=
  ⟨some (before ++ 0x3a :: (t ++ tail)), before.length + (t.length + 1)⟩

theorem hostColon_hostValue (ht : 0x3a ∉ t) (hlen : before.length + (t.length + 1) < 2 ^ 31) :
    hostColon (before ++ 0x3a :: (t ++ tail)) (before.length + (t.length + 1)) = some before.length := by
  have hint : toInt ((before.length + (t.length + 1) : Nat) : Int) =
      ((before.length + (t.length + 1) : Nat) : Int) := toInt_eq_self (by omega) (by omega)
  rw [hostColon, hint, if_neg (by omega), Int.toNat_natCast, memrchr_append_cons ht]

/-- What is copied behind the colon. -/
def portCopy (t : Bytes) : Bytes := t.take ((t.length : Int).bmod (2 ^ 16)).toNat

theorem portLen_hostValue (before t : Bytes) :
    portLen (before.length + (t.length + 1)) before.length = (t.length : Int).bmod (2 ^ 16) := by
  rw [portLen]
  congr 1
  push_cast
  ring

theorem port_hostValue (h0 : 0 ∉ t) :
    cstr (((before ++ 0x3a :: (t ++ tail)).drop (before.length + 1)).take
      ((t.length : Int).bmod (2 ^ 16)).toNat) = portCopy t := by
  have hle : ((t.length : Int).bmod (2 ^ 16)).toNat ≤ t.length := by
    have hdef := Int.bmod_def (t.length : Int) (2 ^ 16)
    split at hdef <;> omega
  rw [List.drop_length_add_append, List.drop_succ_cons, List.drop_zero, List.take_append_of_le_length hle,
    portCopy]
  exact cstr_eq_self fun hmem => h0 (List.mem_of_mem_take hmem)

/-- A port is accepted by its copy. -/
def PortAccepted (t : Bytes) : Prop :=
  (t.length : Int).bmod (2 ^ 16) < 6 ∧ (∀ c ∈ portCopy t, isdigit c = true) ∧ digits 0 (portCopy t) ≠ 0

theorem portCopy_length_le (h : (t.length : Int).bmod (2 ^ 16) < 6) : (portCopy t).length ≤ 5 := by
  rw [portCopy, List.length_take]
  omega

theorem hostAccepted_hostValue (ht : 0x3a ∉ t) (h0 : 0 ∉ t)
    (hlen : before.length + (t.length + 1) < 2 ^ 31) :
    HostAccepted (hostValue before t tail) ↔ PortAccepted t := by
  have hcolon := @hostColon_hostValue before t tail ht hlen
  simp only [HostAccepted, hostValue, Option.mem_def, Option.some.injEq, forall_eq', hcolon,
    portLen_hostValue, port_hostValue h0, PortAccepted, List.all_eq_true]
  refine and_congr_right fun hshort => and_congr_right fun hdigits => ?_
  rw [strtol_digits hdigits (portCopy_length_le hshort)]
  exact Int.natCast_ne_zero

/-- What an accepted `Host` value leaves. -/
theorem mkRequestHostProcess_hostValue (ht : 0x3a ∉ t) (h0 : 0 ∉ t)
    (hlen : before.length + (t.length + 1) < 2 ^ 31) (cfg : Config) (sr : SessionRequest)
    (h : (mkRequestHostProcess cfg (hostValue before t tail) sr).1 = true) :
    (mkRequestHostProcess cfg (hostValue before t tail) sr).2.host.text = before ∧
      (mkRequestHostProcess cfg (hostValue before t tail) sr).2.port = digits 0 (portCopy t) := by
  have haccepted := (hostAccepted_hostValue ht h0 hlen).mp ((mkRequestHostProcess_iff cfg _ sr).mp h)
  have hsearch : mkStringCharSearchR (before ++ 0x3a :: (t ++ tail)) 0x3a
      (toInt (before.length + (t.length + 1) : Nat)) = (before.length : Int) :=
    congrArg position (hostColon_hostValue ht hlen)
  have hportLen : (((before.length + (t.length + 1) : Nat) : Int) - before.length - 1).bmod (2 ^ 16) =
      (t.length : Int).bmod (2 ^ 16) := portLen_hostValue before t
  have hnumber := strtol_digits haccepted.2.1 (portCopy_length_le haccepted.1)
  have hall : (portCopy t).all isdigit = true := List.all_eq_true.mpr haccepted.2.1
  have htext : (⟨some (before ++ 0x3a :: (t ++ tail)), toULong (before.length : Int)⟩ : MkPointer).text =
      before := by
    have hcount : toULong (before.length : Int) = before.length := by
      unfold toULong
      omega
    rw [MkPointer.text, Option.getD_some, hcount, List.take_left]
  unfold mkRequestHostProcess hostValue
  simp only [hsearch, hportLen, Int.toNat_natCast, port_hostValue h0, hall, hnumber]
  rw [if_pos (by omega), if_neg (not_le.mpr haccepted.1), if_neg (by decide),
    if_neg (Int.natCast_ne_zero.mpr haccepted.2.2)]
  exact ⟨htext, rfl⟩

end host

/-! ## the port of a request -/

/-- The host and the port are what the value says. -/
structure HostRead (before t : Bytes) (sr : SessionRequest) : Prop where
  short : 1 ≤ t.length ∧ t.length ≤ 5
  isNumber : ∀ c ∈ t, isdigit c = true
  port : sr.port = digits 0 t
  range : 1 ≤ sr.port ∧ sr.port ≤ 65535
  host : sr.host.text = before

/-- The first bytes of a text that is no port are taken for one. -/
def MisreadPort (t : Bytes) : Prop :=
  t.length % 2 ^ 16 ≤ 5 ∧ (∀ c ∈ t.take (t.length % 2 ^ 16), isdigit c = true) ∧
    digits 0 (t.take (t.length % 2 ^ 16)) ≠ 0 ∧
    (2 ^ 16 ≤ t.length ∨ 65535 < digits 0 (t.take (t.length % 2 ^ 16)))

instance (t : Bytes) : Decidable (MisreadPort t) := inferInstanceAs (Decidable (_ ∧ _ ∧ _ ∧ _))

/-- What the header fields make of a `Host` value. -/
theorem mkRequestFieldsProcess_host (cfg : Config) {headers : Bytes} {len : Int} {host : MkPointer}
    (hhost : (mkRequestHeaderGet (mkRequestHeaderTocParse headers len) rhHost).1 = host)
    (sr : SessionRequest) :
    ∃ sr', (mkRequestFieldsProcess cfg headers len sr).1 =
        (if (mkRequestHostProcess cfg host sr').1 then 0 else -1) ∧
      (mkRequestFieldsProcess cfg headers len sr).2.port = (mkRequestHostProcess cfg host sr').2.port ∧
      (mkRequestFieldsProcess cfg headers len sr).2.host = (mkRequestHostProcess cfg host sr').2.host := by
  obtain ⟨rows, hget⟩ : ∃ rows, mkRequestHeaderGet (mkRequestHeaderTocParse headers len) rhHost =
      (host, rows) := ⟨_, Prod.ext hhost rfl⟩
  refine ⟨{ sr with headersToc := rows }, ?_⟩
  unfold mkRequestFieldsProcess
  simp only [hget]
  generalize mkRequestHostProcess cfg host { sr with headersToc := rows } = processed
  obtain ⟨ok, sr'⟩ := processed
  cases ok with
  | false => exact ⟨rfl, rfl, rfl⟩
  | true =>
      simp only
      obtain ⟨keepAlive, closeNow, connection, hconn⟩ := mkRequestConnectionProcess_eq _
      rw [hconn]
      exact ⟨rfl, rfl, rfl⟩

theorem portCopy_eq {t : Bytes} (h : t.length % 2 ^ 16 < 2 ^ 15) :
    portCopy t = t.take (t.length % 2 ^ 16) := by
  have hmod : ((t.length : Int).bmod (2 ^ 16)).toNat = t.length % 2 ^ 16 := by
    have hdef := Int.bmod_def (t.length : Int) (2 ^ 16)
    split at hdef <;> omega
  rw [portCopy, hmod]

theorem misreadPort_iff {t : Bytes} (h : t.length % 2 ^ 16 < 2 ^ 15) :
    MisreadPort t ↔ PortAccepted t ∧ (2 ^ 16 ≤ t.length ∨ 65535 < digits 0 (portCopy t)) := by
  have hshort : (t.length : Int).bmod (2 ^ 16) < 6 ↔ t.length % 2 ^ 16 ≤ 5 := by
    have hdef := Int.bmod_def (t.length : Int) (2 ^ 16)
    split at hdef <;> omega
  rw [MisreadPort, PortAccepted, portCopy_eq h, hshort]
  constructor
  · exact fun ⟨hlen, hdigits, hvalue, hwrong⟩ => ⟨⟨hlen, hdigits, hvalue⟩, hwrong⟩
  · exact fun ⟨⟨hlen, hdigits, hvalue⟩, hwrong⟩ => ⟨hlen, hdigits, hvalue, hwrong⟩

/-- An accepted port is what the value says unless it is misread. -/
theorem hostRead_iff {before t : Bytes} {sr : SessionRequest} (h : t.length % 2 ^ 16 < 2 ^ 15)
    (haccepted : PortAccepted t) (hhost : sr.host.text = before) (hport : sr.port = digits 0 (portCopy t)) :
    HostRead before t sr ↔ ¬ MisreadPort t := by
  rw [misreadPort_iff h, and_iff_right haccepted, not_or]
  obtain ⟨hshort, hdigits, hvalue⟩ := haccepted
  have hcopy := portCopy_length_le hshort
  rw [portCopy_eq h] at hdigits hport hvalue hcopy ⊢
  rw [List.length_take] at hcopy
  constructor
  · intro hread
    have hlen := hread.short
    have hrange := hread.range
    rw [List.take_of_length_le (by omega)] at hport ⊢
    omega
  · rintro ⟨hlen, hsmall⟩
    rw [List.take_of_length_le (by omega)] at hdigits hport hvalue hsmall
    have hne : t ≠ [] := by
      rintro rfl
      exact hvalue rfl
    have hpos := List.length_pos_iff.mpr hne
    exact ⟨by omega, hdigits, hport, by omega, hhost⟩

/-- The checks of the first line: `mk_request_header_process` returns before the header
fields are looked at. -/
def LineRefused (sys : Sys) (sr : SessionRequest) : Prop :=
  let body := sr.body.data.getD []
  let uriInit := indexOf sys body 0x20 + 1
  let fhLimit := indexOf sys body 0x0a
  let uriEnd := mkStringCharSearchR body 0x20 fhLimit - 1
  uriEnd ≤ 0 ∨ uriEnd < uriInit ∨
    (mkRequestUriProcess body uriInit uriEnd (uriEnd + 2) sr).uri.len < 1 ∨ uriEnd + 2 = fhLimit - 1

instance (sys : Sys) (sr : SessionRequest) : Decidable (LineRefused sys sr) :=
  inferInstanceAs (Decidable (_ ∨ _ ∨ _ ∨ _))

/-- The `Host` value a request is read with. -/
def requestHost (sys : Sys) (sr : SessionRequest) : MkPointer :=
  let body := sr.body.data.getD []
  let headersInit := indexOf sys body 0x0a - 1 + 2
  (mkRequestHeaderGet
    (mkRequestHeaderTocParse (body.drop headersInit.toNat) ((sr.body.len : Int) - headersInit)) rhHost).1

theorem LineRefused.mkRequestHeaderProcess_fst {sys : Sys} {sr : SessionRequest} (h : LineRefused sys sr)
    (cfg : Config) : (mkRequestHeaderProcess cfg sys sr).1 = -1 := by
  unfold mkRequestHeaderProcess
  simp only
  split
  · rfl
  split
  · rfl
  split
  · rfl
  split
  · rfl
  next hend hinit huri hprot =>
    rw [LineRefused] at h
    simp only [hend, hinit, huri, hprot, or_self] at h

theorem mkRequestHeaderProcess_fields {sys : Sys} {sr : SessionRequest} (h : ¬ LineRefused sys sr)
    (cfg : Config) : ∃ sr', mkRequestHeaderProcess cfg sys sr =
      mkRequestFieldsProcess cfg
        ((sr.body.data.getD []).drop (indexOf sys (sr.body.data.getD []) 0x0a - 1 + 2).toNat)
        ((sr.body.len : Int) - (indexOf sys (sr.body.data.getD []) 0x0a - 1 + 2)) sr' ∧
      sr'.keepAlive = sr.keepAlive ∧ sr'.closeNow = sr.closeNow := by
  obtain ⟨hend, hinit, huri, hprot⟩ := by simpa only [LineRefused, not_or] using h
  unfold mkRequestHeaderProcess
  simp only
  rw [if_neg hend, if_neg hinit, if_neg huri, if_neg hprot]
  obtain ⟨uri, queryString, hline⟩ := mkRequestUriProcess_eq (sr.body.data.getD [])
    (indexOf sys (sr.body.data.getD []) 0x20 + 1)
    (mkStringCharSearchR (sr.body.data.getD []) 0x20 (indexOf sys (sr.body.data.getD []) 0x0a) - 1)
    (mkStringCharSearchR (sr.body.data.getD []) 0x20 (indexOf sys (sr.body.data.getD []) 0x0a) - 1 + 2) sr
  rw [hline]
  split <;> exact ⟨_, rfl, rfl, rfl⟩

/-- `memcpy` is called with at most five bytes, and not with a negative length. -/
def CopyInside (sys : Sys) (sr : SessionRequest) (before t : Bytes) : Prop :=
  ¬ LineRefused sys sr → portLen (before.length + (t.length + 1)) before.length < 6 →
    0 ≤ portLen (before.length + (t.length + 1)) before.length

/-- The port of an accepted request is what the copy says. -/
theorem requestHost_port {sys : Sys} {sr : SessionRequest} {before t tail : Bytes}
    (hlen : (sr.body.data.getD []).length < 2 ^ 31) (hline : ¬ LineRefused sys sr) (ht : 0x3a ∉ t)
    (hhost : requestHost sys sr = hostValue before t tail) (cfg : Config) :
    ((mkRequestHeaderProcess cfg sys sr).1 = -1 ↔ ¬ PortAccepted t) ∧
      (PortAccepted t → (mkRequestHeaderProcess cfg sys sr).2.host.text = before ∧
        (mkRequestHeaderProcess cfg sys sr).2.port = digits 0 (portCopy t)) := by
  have hshorter := List.length_drop (i := (indexOf sys (sr.body.data.getD []) 0x0a - 1 + 2).toNat)
    (l := sr.body.data.getD [])
  obtain ⟨hnul, hdata⟩ := mkRequestHeaderGet_nul (by decide : IsName rhHost) (by omega)
    (by simp only [List.length_append, List.length_cons]; omega) hhost
  simp only [List.length_append, List.length_cons] at hdata
  have h0 : 0 ∉ t := by
    intro hmem
    apply hnul
    rw [List.take_length_add_append, List.take_succ_cons, List.take_left]
    simp [hmem]
  have hsize : before.length + (t.length + 1) < 2 ^ 31 := by omega
  obtain ⟨sr₁, hprocess, -⟩ := mkRequestHeaderProcess_fields hline cfg
  obtain ⟨sr₂, hret, hport, hname⟩ := mkRequestFieldsProcess_host cfg hhost sr₁
  have haccepted := (mkRequestHostProcess_iff cfg (hostValue before t tail) sr₂).trans
    (hostAccepted_hostValue ht h0 hsize)
  rw [hprocess, hret, hport, hname]
  constructor
  · rw [← haccepted]
    split
    · next hok => exact iff_of_false (by decide) (not_not_intro hok)
    · next hok => exact iff_of_true rfl hok
  · exact fun hok => mkRequestHostProcess_hostValue ht h0 hsize cfg sr₂ (haccepted.mpr hok)

/-- **Host and port**: a request with a colon in its `Host` value is rejected or read as the
value says, with a copy that fits, exactly when its first line is refused, or the text behind
the last colon has no length that turns negative and is not misread. -/
theorem host_port_iff (cfg : Config) (sys : Sys) {sr : SessionRequest} {before t tail : Bytes}
    (hlen : (sr.body.data.getD []).length < 2 ^ 31) (ht : 0x3a ∉ t)
    (hhost : requestHost sys sr = hostValue before t tail) :
    (((mkRequestHeaderProcess cfg sys sr).1 = -1 ∨
        HostRead before t (mkRequestHeaderProcess cfg sys sr).2) ∧ CopyInside sys sr before t) ↔
      LineRefused sys sr ∨ (t.length % 2 ^ 16 < 2 ^ 15 ∧ ¬ MisreadPort t) := by
  by_cases hline : LineRefused sys sr
  · exact iff_of_true ⟨.inl (hline.mkRequestHeaderProcess_fst cfg), fun h => absurd hline h⟩ (.inl hline)
  · obtain ⟨hreject, hread⟩ := requestHost_port hlen hline ht hhost cfg
    rw [or_iff_right hline, hreject, CopyInside, portLen_hostValue]
    have hmod := Int.bmod_def (t.length : Int) (2 ^ 16)
    by_cases hsmall : t.length % 2 ^ 16 < 2 ^ 15
    · rw [and_iff_left (by intro _ _; split at hmod <;> omega), and_iff_right hsmall]
      by_cases haccepted : PortAccepted t
      · obtain ⟨hname, hport⟩ := hread haccepted
        rw [or_iff_right (not_not_intro haccepted)]
        exact hostRead_iff hsmall haccepted hname hport
      · rw [misreadPort_iff hsmall]
        exact iff_of_true (.inl haccepted) (fun hmisread => haccepted hmisread.1)
    · -- the length has turned negative, so it passes the bound and reaches `memcpy`
      refine iff_of_false (fun hinside => ?_) (fun hgood => hsmall hgood.1)
      have hnonneg := hinside.2 hline (by split at hmod <;> omega)
      split at hmod <;> omega

/-- A request of the host `a` and a port of it. -/
def portRequest (port : Bytes) : SessionRequest :=
  let head := ascii "GET / HTTP/1.1\r\nHost: a:".toList ++ port
  { body := ⟨some (head ++ (mkCrlf ++ mkCrlf)), head.length⟩ }

theorem host_port_eighty :
    ((mkRequestHeaderProcess sampleConfig sampleSys (portRequest (ascii "80".toList))).1 = -1 ∨
      HostRead (ascii "a".toList) (ascii "80".toList)
        (mkRequestHeaderProcess sampleConfig sampleSys (portRequest (ascii "80".toList))).2) ∧
      CopyInside sampleSys (portRequest (ascii "80".toList)) (ascii "a".toList) (ascii "80".toList) :=
  (@host_port_iff sampleConfig sampleSys (portRequest (ascii "80".toList)) (ascii "a".toList)
    (ascii "80".toList) (mkCrlf ++ mkCrlf) (by decide +kernel) (by decide) (by decide +kernel)).mpr
    (.inr (by decide +kernel))

/-- Five digits can say more than a port: the request is taken, with port 99999. -/
theorem not_host_port_range :
    requestHost sampleSys (portRequest (ascii "99999".toList)) =
        hostValue (ascii "a".toList) (ascii "99999".toList) (mkCrlf ++ mkCrlf) ∧
      ¬ ((mkRequestHeaderProcess sampleConfig sampleSys (portRequest (ascii "99999".toList))).1 = -1 ∨
        HostRead (ascii "a".toList) (ascii "99999".toList)
          (mkRequestHeaderProcess sampleConfig sampleSys (portRequest (ascii "99999".toList))).2) := by
  refine ⟨by decide +kernel, not_or.mpr ⟨by decide +kernel, fun hread => ?_⟩⟩
  exact absurd hread.range.2 (by decide +kernel)

end Monkey
