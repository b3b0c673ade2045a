import Monkey.Fastcgi.Prepare
import Monkey.Request.Table

/-!
# Monkey.Fastcgi.Environment

The environment against its buffer: the rows of the header table as parameters, and what
a request that was prepared carries.

`fcgi_env_write` trusts the rows it is given, and what does not fit is left out without
an error.
-/

namespace Monkey.Fastcgi

/-! ## writing to the end -/

section write

variable {len pos : Nat} {vars : List EnvVar} {out : Bytes}

/-- What is written ends before the buffer does. -/
theorem fcgiEnvWrite_lt (h : fcgiEnvWrite len vars pos = some out) (hpos : pos < len) : pos + out.length < len := by
  induction vars generalizing pos out with
  | nil =>
      obtain rfl := Option.some.inj h
      exact hpos
  | cons v vars ih =>
      unfold fcgiEnvWrite at h
      split at h
      · contradiction
      split at h
      · next hspace =>
          split at h
          · next hlen =>
              obtain ⟨rest, hrest, rfl⟩ := Option.map_eq_some_iff.mp h
              have hparam := length_fcgiParamWrite_le v.key v.value
              have hih := ih hrest (by omega)
              rw [List.length_append]
              omega
          · contradiction
      · obtain rfl := Option.some.inj h
        exact hpos

end write

/-! ## header rows -/

/-- The name of a header as CGI has it. -/
def httpName (name : Bytes) : Bytes :=
  ascii ['H', 'T', 'T', 'P', '_'] ++ name.map fun c => if c = 0x2d then 0x5f else toupper c

/-- The name of a row: all of it where it has no colon. -/
def headerName (row : Bytes) : Bytes := row.takeWhile (· ≠ 0x3a)

/-- The name fits its buffer, and behind it stands a colon with one byte at least. -/
def RowFits (row : Bytes) : Prop := (headerName row).length ≤ 123 ∧ (headerName row).length + 2 ≤ row.length

instance (row : Bytes) : Decidable (RowFits row) := inferInstanceAs (Decidable (_ ∧ _))

/-- A row with a colon and a blank gives its own parameter. -/
theorem headerVar_field {name : Bytes} (h : 0x3a ∉ name) (value : Bytes) :
    headerVar (name ++ ascii [':', ' '] ++ value) = { key := httpName name, value := value } := by
  have hname : (name ++ ascii [':', ' '] ++ value).takeWhile (· ≠ 0x3a) = name := by
    rw [List.append_assoc, List.takeWhile_append_of_pos]
    · exact List.append_nil name
    · intro c hc
      exact decide_eq_true fun hcolon => h (hcolon ▸ hc)
  have hvalue : (name ++ ascii [':', ' '] ++ value).drop (name.length + 2) = value :=
    List.drop_left' (by rw [List.length_append]; rfl)
  have hkey : headerKey (name ++ ascii [':', ' '] ++ value) = httpName name := by
    rw [headerKey, hname, httpName]
    congr 1
    refine List.map_congr_left fun c _ => ?_
    by_cases hc : c = 0x2d <;> simp [hc]
  rw [headerVar, hkey, hname, hvalue]
  congr 1
  simp [ascii]
  omega

theorem headerKey_length (row : Bytes) : (headerKey row).length = (headerName row).length + 5 := by
  rw [headerKey, List.length_append, List.length_map, ← headerName, Nat.add_comm]
  rfl

/-- The length computed for a value does not wrap when there is one. -/
theorem headerVar_len_nonneg {row : Bytes} : 0 ≤ (headerVar row).len ↔ (headerName row).length + 2 ≤ row.length := by
  show (0 : Int) ≤ row.length - (headerName row).length - 2 ↔ _
  omega

theorem headerVar_len {row : Bytes} (h : 0 ≤ (headerVar row).len) :
    (headerVar row).len = (headerVar row).value.length := by
  have hle := headerVar_len_nonneg.mp h
  show (row.length : Int) - (headerName row).length - 2 = (row.drop ((headerName row).length + 2)).length
  rw [List.length_drop]
  omega

/-- The rows are written as they should be: inside both buffers, one parameter for each with
the text behind its colon and one byte more, and no length wraps. -/
structure HeadersWritten (len pos : Nat) (rows : List Bytes) : Prop where
  written : ∃ out, fcgiEnvWrite len (rows.map headerVar) pos = some out ∧ pos + out.length ≤ len ∧
    out = rows.flatMap fun row => fcgiParamWrite (headerKey row) (row.drop ((headerName row).length + 2))
  lengths : ∀ row ∈ rows, 0 ≤ (headerVar row).len

/-- **Header rows**: of every table the loop writes all rows inside its buffers exactly when each
has a name of 123 bytes at most and a byte behind its colon, and there is room for each. -/
theorem header_rows_written_iff (data : Bytes) (dataLen : Int) {len pos : Nat} (hpos : pos ≤ len) :
    (HeadersWritten len pos ((mkRequestHeaderTocParse data dataLen).map HeaderTocRow.text) ↔
      (∀ row ∈ (mkRequestHeaderTocParse data dataLen).map HeaderTocRow.text, RowFits row) ∧
        EnvFits len (((mkRequestHeaderTocParse data dataLen).map HeaderTocRow.text).map headerVar) pos) ∧
    ∀ name value : Bytes, 0x3a ∉ name →
      headerVar (name ++ ascii [':', ' '] ++ value) = { key := httpName name, value := value } := by
  refine ⟨?_, fun name value hname => headerVar_field hname value⟩
  generalize (mkRequestHeaderTocParse data dataLen).map HeaderTocRow.text = rows
  have hvars : ∀ v ∈ rows.map headerVar, 0 ≤ v.len → v.len = v.value.length := by
    intro v hv
    obtain ⟨row, -, rfl⟩ := List.mem_map.mp hv
    exact headerVar_len
  have hbytes : envBytes (rows.map headerVar) =
      rows.flatMap fun row => fcgiParamWrite (headerKey row) (row.drop ((headerName row).length + 2)) :=
    List.flatMap_map ..
  have hnames : (∀ v ∈ rows.map headerVar, v.key.length ≤ nameBuffer) ↔
      ∀ row ∈ rows, (headerName row).length ≤ 123 := by
    rw [List.forall_mem_map]
    refine forall₂_congr fun row _ => ?_
    show (headerKey row).length ≤ 128 ↔ _
    rw [headerKey_length]
    omega
  constructor
  · rintro ⟨⟨out, hwrite, -, rfl⟩, hlengths⟩
    rw [← hbytes] at hwrite
    obtain ⟨hfits, hshort⟩ := (fcgiEnvWrite_whole_iff hvars).mp hwrite
    exact ⟨fun row hrow => ⟨hnames.mp hshort row hrow, headerVar_len_nonneg.mp (hlengths row hrow)⟩, hfits⟩
  · rintro ⟨hrows, hfits⟩
    have hwrite := (fcgiEnvWrite_whole_iff hvars).mpr ⟨hfits, hnames.mpr fun row hrow => (hrows row hrow).1⟩
    exact ⟨⟨_, hwrite, fcgiEnvWrite_length hwrite hpos, hbytes⟩,
      fun row hrow => headerVar_len_nonneg.mpr (hrows row hrow).2⟩

/-- Two rows with values. -/
theorem header_rows_written_two :
    HeadersWritten 4072 0 ((mkRequestHeaderTocParse (ascii "Host: a\r\nX-Y: \r\n\r\n".toList) 14).map HeaderTocRow.text) :=
  ((header_rows_written_iff (ascii "Host: a\r\nX-Y: \r\n\r\n".toList) 14 (Nat.zero_le 4072)).1).mpr
    ⟨by decide +kernel, by decide +kernel⟩

/-- A row that ends with its colon: the length of its value wraps, and it is copied. -/
theorem not_header_rows_written_bare :
    (mkRequestHeaderTocParse (ascii "X:\r\n\r\n".toList) 2).map HeaderTocRow.text = [ascii "X:".toList] ∧
    (headerVar (ascii "X:".toList)).len = -1 ∧ fcgiEnvWrite 4072 [headerVar (ascii "X:".toList)] 0 = none ∧
    ¬ HeadersWritten 4072 0 [ascii "X:".toList] :=
  ⟨by decide +kernel, by decide +kernel, by decide +kernel, fun h =>
    absurd (h.lengths _ List.mem_cons_self) (by decide +kernel)⟩

/-! ## what the caller is told -/

/-- A `size_t` taken as an `ssize_t`. -/
def toSsize (n : Nat) : Int := if n < 2 ^ 63 then n else (n : Int) - 2 ^ 64

/-- `fcgi_env_write` returned, with the whole environment written or with what its caller takes
for a failure. -/
def EnvReported (len : Nat) (vars : List EnvVar) : Prop :=
  ∃ out, fcgiEnvWrite len vars 0 = some out ∧ (out = envBytes vars ∨ toSsize out.length = -1)

/-- The caller is never told of a failure. -/
theorem toSsize_fcgiEnvWrite {len : UInt64} {vars : List EnvVar} {out : Bytes}
    (h : fcgiEnvWrite len.toNat vars 0 = some out) : toSsize out.length ≠ -1 := by
  have hlen := len.toNat_lt
  have hle := fcgiEnvWrite_length h (Nat.zero_le _)
  rw [toSsize]
  split
  · omega
  · have hlt := fcgiEnvWrite_lt h (by omega)
    omega

theorem envReported_iff (len : UInt64) {vars : List EnvVar} (hvars : ∀ v ∈ vars, 0 ≤ v.len → v.len = v.value.length) :
    EnvReported len.toNat vars ↔ EnvFits len.toNat vars 0 ∧ ∀ v ∈ vars, v.key.length ≤ nameBuffer := by
  rw [← fcgiEnvWrite_whole_iff hvars]
  constructor
  · rintro ⟨out, hwrite, rfl | hfail⟩
    · exact hwrite
    · exact absurd hfail (toSsize_fcgiEnvWrite hwrite)
  · exact fun hwrite => ⟨_, hwrite, .inl rfl⟩

/-- A request that was prepared carries the whole environment exactly when it fits. -/
theorem carriesEnv_iff {tmpuri : Nat → UInt8} {reqId : UInt16} {location : FcgiLocation} {iov : ChunkIov}
    {cr : ClientRequest} {p : Prepared} (h : fcgiPrepareRequest tmpuri reqId (some location) iov cr = .ok p)
    (mem : Nat → UInt8) :
    CarriesEnv reqId location.keepAlive (envBytes (fcgiEnvVars tmpuri cr)) (p.io mem cr.data).flatten ↔
      EnvFits (prepareLen - 24) (fcgiEnvVars tmpuri cr) 0 := by
  obtain ⟨env, hwrite, hcarries⟩ := carriesEnv_written h mem
  have hiff := fcgiEnvWrite_eq_envBytes_iff (fun v => len_of_mem_fcgiEnvVars) hwrite
  constructor
  · intro hwhole
    exact hiff.mp (hcarries.unique hwhole)
  · intro hfits
    rw [← hiff.mpr hfits]
    exact hcarries

/-- **No failure is reported**: `fcgi_env_write` does what its caller relies on exactly when every
parameter passes its check and the names fit their buffer, and a prepared request carries the
whole environment exactly when every parameter passes. -/
theorem env_reported_iff (len : UInt64) (tmpuri : Nat → UInt8) (cr : ClientRequest) :
    (EnvReported len.toNat (fcgiEnvVars tmpuri cr) ↔
      EnvFits len.toNat (fcgiEnvVars tmpuri cr) 0 ∧ ∀ v ∈ fcgiEnvVars tmpuri cr, v.key.length ≤ nameBuffer) ∧
    ∀ reqId location iov p, fcgiPrepareRequest tmpuri reqId (some location) iov cr = .ok p → ∀ mem,
      (CarriesEnv reqId location.keepAlive (envBytes (fcgiEnvVars tmpuri cr)) (p.io mem cr.data).flatten ↔
        EnvFits (prepareLen - 24) (fcgiEnvVars tmpuri cr) 0) :=
  ⟨envReported_iff len fun _ => len_of_mem_fcgiEnvVars, fun _ _ _ _ h mem => carriesEnv_iff h mem⟩

/-- A request for `/` is prepared with its whole environment. -/
theorem env_reported_root : ∃ p, fcgiPrepareRequest (fun _ => 0) 1 (some {}) {} { uri := ascii ['/'] } = .ok p ∧
    ∀ mem, CarriesEnv 1 false (envBytes (fcgiEnvVars (fun _ => 0) { uri := ascii ['/'] })) (p.io mem []).flatten := by
  obtain ⟨p, hp⟩ := @PrepareRet.exists_ok (fcgiPrepareRequest (fun _ => 0) 1 (some {}) {} { uri := ascii ['/'] })
    (by decide +kernel)
  exact ⟨p, hp, fun mem => ((env_reported_iff 4072 (fun _ => 0) { uri := ascii ['/'] }).2 1 {} {} p hp mem).mpr
    (by decide +kernel)⟩

/-- A query of 4000 bytes does not fit: the request is prepared without it and what follows. -/
theorem not_env_reported_long_query : ∃ p,
    fcgiPrepareRequest (fun _ => 0) 1 (some {}) {}
      { uri := ascii ['/'], queryString := List.replicate 4000 0x61 } = .ok p ∧
    (∀ mem, ¬ CarriesEnv 1 false
      (envBytes (fcgiEnvVars (fun _ => 0) { uri := ascii ['/'], queryString := List.replicate 4000 0x61 }))
      (p.io mem []).flatten) ∧
    ¬ EnvReported (prepareLen - 24)
      (fcgiEnvVars (fun _ => 0) { uri := ascii ['/'], queryString := List.replicate 4000 0x61 }) := by
  obtain ⟨p, hp⟩ := @PrepareRet.exists_ok (fcgiPrepareRequest (fun _ => 0) 1 (some {}) {}
    { uri := ascii ['/'], queryString := List.replicate 4000 0x61 }) (by decide +kernel)
  have hnot : ¬ EnvFits (prepareLen - 24)
      (fcgiEnvVars (fun _ => 0) { uri := ascii ['/'], queryString := List.replicate 4000 0x61 }) 0 := by
    decide +kernel
  exact ⟨p, hp, fun mem hcarries => hnot ((carriesEnv_iff hp mem).mp hcarries),
    fun hreported => hnot ((envReported_iff 4072 fun _ => len_of_mem_fcgiEnvVars).mp hreported).1⟩

end Monkey.Fastcgi
