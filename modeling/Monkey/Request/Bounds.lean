import Monkey.Request.Touches

/-!
# Monkey.Request.Bounds

`mk_request_parse` and `mk_request_header_process` inside the buffer of the session.

Everything stays inside exactly when the blocks have ends, a first line with a blank and
a newline of its own leaves room for the two searches that are given a length, seven
bytes for a method and the position of the protocol for a `?`, and the `Host` and
`Connection` values are not empty in front of something that belongs to another block
(`Fits`).
-/

namespace Monkey

/-! ## the blocks of a round -/

/-- The end of the block that starts at `i`; `none` when the search finds nothing. -/
def blockEnd (cs : ClientSession) (i : Nat) : Option Nat :=
  if cs.counterConnections > 0 then (strstr (cs.body.drop i) mkEndblock).map (i + ·)
  else some cs.bodyPosEnd.toNat

/-- The starts and ends of the blocks `mk_request_parse` cuts from index `i` on, up to
one without an end. -/
def parseBlocks (cs : ClientSession) : Nat → Nat → List (Nat × Option Nat)
  | 0, _ => []
  | fuel + 1, i =>
      if (i : Int) ≤ cs.bodyPosEnd then
        (i, blockEnd cs i) :: match blockEnd cs i with
          | some stop => parseBlocks cs fuel (stop + mkEndblock.length)
          | none => []
      else []

def blocks (cs : ClientSession) : List (Nat × Option Nat) :=
  parseBlocks cs (cs.bodyPosEnd + 2).toNat 0

/-- The method of a block. -/
def blockMethod (cs : ClientSession) (i : Nat) : Method :=
  if i = 0 then cs.firstMethod else mkHttpMethodGet (cs.body.drop i)

/-- `mk_http_method_get`: the blank behind the method, then comparisons before it. -/
def methodTouches (data : Bytes) : List Touch :=
  match memchr data 0x20 7 with
  | some pos => [.read pos, .found pos]
  | none => [.read 6]

/-- `mk_request_parse` on one block: the search for its end, where only a `-1` at the
start of the buffer is told from a position, its method, known for the first, and the
start of posted data. -/
def parseTouches (cs : ClientSession) (i : Nat) : Option Nat → List Touch
  | none => .read (strlen (cs.body.drop i)) :: if i = 0 then [] else [.missing]
  | some stop =>
      (if cs.counterConnections > 0 then [.read (stop - i + 3)] else []) ++
        ((if blockMethod cs i = .post then [.offset (stop - i + mkEndblock.length)] else []) ++
          if i = 0 then [] else methodTouches (cs.body.drop i))

/-- The bytes a block and its blank line take. -/
def blockSize (i : Nat) (stop : Option Nat) : Nat := stop.elim 0 (· - i) + mkEndblock.length

/-- Everything the two functions touch in a round is inside: for the blocks, and for
their headers when `mk_request_parse` accepts the blocks. -/
def RequestInside (cfg : Config) (cs : ClientSession) : Prop :=
  (∀ b ∈ blocks cs, TouchesInside (cs.body.drop b.1).length (blockSize b.1 b.2)
    (parseTouches cs b.1 b.2)) ∧
  ((mkRequestParse cs).1 = 0 → ∀ b ∈ blocks cs, ∀ stop ∈ b.2,
    TouchesInside (cs.body.drop b.1).length (blockSize b.1 b.2)
      (headerTouches cfg (cs.body.drop b.1) (stop - b.1)))

instance (cfg : Config) (cs : ClientSession) : Decidable (RequestInside cfg cs) :=
  inferInstanceAs (Decidable ((∀ b ∈ blocks cs, _) ∧ (_ → ∀ b ∈ blocks cs, ∀ stop ∈ b.2, _)))

/-! ## the condition -/

/-- A blank among the first seven bytes is one of the block; without one there are
seven bytes. -/
def MethodFits (data : Bytes) (len : Nat) : Prop :=
  (memchr data 0x20 7).elim (6 ≤ data.length) fun pos => pos < len + mkEndblock.length

/-- A `?` among the bytes searched is one of the block; without one these bytes are
there. -/
def QueryFits (data : Bytes) (len uriInit protInit : Nat) : Prop :=
  (memchr (data.drop uriInit) 0x3f protInit).elim (uriInit + protInit ≤ data.length + 1)
    fun q => q = 0 ∨ uriInit + q < len + mkEndblock.length

/-- The last colon of a `Host` value, or of all that follows an empty one, is one of the
block, and what is copied behind it as the port is there. -/
def HostFits (data : Bytes) (len : Nat) (host : MkPointer) : Prop :=
  ∀ value ∈ host.data, ∀ pos ∈ hostColon value host.len,
    offsetIn data value + pos < len + mkEndblock.length ∧
      (portLen host.len pos < 6 →
        offsetIn data value + pos + toULong (portLen host.len pos) ≤ data.length)

/-- The port behind the last colon: at most five digits, and not zero. -/
def HostAccepted (host : MkPointer) : Prop :=
  ∀ value ∈ host.data, ∀ pos ∈ hostColon value host.len,
    let port := cstr ((value.drop (pos + 1)).take (portLen host.len pos).toNat)
    portLen host.len pos < 6 ∧ port.all isdigit = true ∧ strtol port ≠ 0

/-- What is found behind an empty value is in the block. -/
def SearchFits (data : Bytes) (len : Nat) (value search : Bytes) (n : Int) : Prop :=
  n ≤ 0 → ∀ k ∈ strcasestr value search, offsetIn data value + k < len + mkEndblock.length

def ConnectionFits (data : Bytes) (len : Nat) (connection : MkPointer) : Prop :=
  ∀ value ∈ connection.data,
    SearchFits data len value keepAliveValue (toInt connection.len) ∧
      (mkStringSearchN value keepAliveValue (toInt connection.len) < 0 →
        SearchFits data len value closeValue (toInt connection.len))

/-- The `Host` value fits, and unless it is refused so does that of `Connection`. -/
def FieldsFit (data : Bytes) (len : Nat) (rows : List HeaderTocRow) : Prop :=
  HostFits data len (mkRequestHeaderGet rows rhHost).1 ∧
    (HostAccepted (mkRequestHeaderGet rows rhHost).1 →
      ConnectionFits data len (mkRequestHeaderGet (mkRequestHeaderGet rows rhHost).2 rhConnection).1)

/-- A block of length `len` has a blank of its own, and a newline, before any NUL; when
it starts with the newline, the last blank of the string is its own too; and when the
first line is accepted, the search for a query string and the header values fit. -/
structure LineFits (data : Bytes) (len : Nat) : Prop where
  blank : ∃ blank, strchr data 0x20 = some blank ∧ blank < len + mkEndblock.length
  newline : (strchr data 0x0a).isSome
  last : ∀ blank fhLimit last, strchr data 0x20 = some blank → strchr data 0x0a = some fhLimit →
    memrchr data 0x20 (if fhLimit = 0 then strlen data else fhLimit) = some last →
    (fhLimit = 0 → last < len + mkEndblock.length) ∧
      (2 ≤ last → blank + 2 ≤ last → QueryFits data len (blank + 1) (last + 1) ∧
        (last + 2 ≠ fhLimit → FieldsFit data len (headerRows data len fhLimit)))

/-- One block, or several GET and HEAD requests. -/
def Pipelines (cs : ClientSession) : Prop :=
  (blocks cs).length ≤ 1 ∨
    ∀ b ∈ blocks cs, blockMethod cs b.1 = .get ∨ blockMethod cs b.1 = .head

/-- Every block but the first has an end, the methods of these fit, and so do the first
lines and headers of blocks that may stand together. -/
def Fits (cs : ClientSession) : Prop :=
  (∀ b ∈ blocks cs, (b.2 = none → b.1 = 0) ∧
    ∀ stop ∈ b.2, b.1 ≠ 0 → MethodFits (cs.body.drop b.1) (stop - b.1)) ∧
  (Pipelines cs → ∀ b ∈ blocks cs, ∀ stop ∈ b.2, LineFits (cs.body.drop b.1) (stop - b.1))

/-! ## one block -/

section

variable {data : Bytes} {len : Nat}

theorem queryTouches_inside_iff {uriInit protInit : Nat} (hpos : 0 < protInit) :
    TouchesInside data.length (len + 4) (queryTouches data uriInit protInit) ↔
      QueryFits data len uriInit protInit := by
  have hend : mkEndblock.length = 4 := rfl
  unfold queryTouches QueryFits
  cases hq : memchr (data.drop uriInit) 0x3f protInit with
  | none =>
    simp only [touchesInside_cons, Touch.Inside, Option.elim_none]
    constructor
    · intro h
      omega
    · intro h
      exact ⟨by omega, touchesInside_nil⟩
  | some q =>
    have hlt := memchr_lt hq
    rw [List.length_drop] at hlt
    simp only [touchesInside_cons, Touch.Inside, Option.elim_some]
    by_cases h0 : 0 < q
    · simp only [if_pos h0, touchesInside_cons, Touch.Inside]
      constructor
      · rintro ⟨-, hle, -⟩
        exact .inr (by omega)
      · intro h
        exact ⟨by omega, by omega, touchesInside_nil⟩
    · simp only [if_neg h0]
      exact ⟨fun _ => .inl (by omega), fun _ => ⟨by omega, touchesInside_nil⟩⟩

theorem methodTouches_inside_iff :
    TouchesInside data.length (len + 4) (methodTouches data) ↔ MethodFits data len := by
  have hend : mkEndblock.length = 4 := rfl
  unfold methodTouches MethodFits
  cases hpos : memchr data 0x20 7 with
  | none =>
    simp only [touchesInside_cons, Touch.Inside, Option.elim_none]
    exact ⟨fun h => h.1, fun h => ⟨h, touchesInside_nil⟩⟩
  | some pos =>
    have hlt := memchr_lt hpos
    simp only [touchesInside_cons, Touch.Inside, Option.elim_some, hend]
    exact ⟨fun h => h.2.1, fun h => ⟨by omega, h, touchesInside_nil⟩⟩

/-- A positive `int` length is at most that of the value. -/
theorem ValueIn.int_le {value : Bytes} {n : Int} (h : ValueIn data len value n)
    (hpos : 0 < toInt (toULong n)) : toInt (toULong n) ≤ n := by
  by_cases hn : 0 ≤ n
  · have hle : toInt (toULong n) ≤ (toULong n : Int) := toInt_le (by omega)
    exact hle.trans (toULong_le hn)
  · have hlower := h.lower
    obtain rfl : n = -1 := by omega
    exact absurd hpos (by decide)

theorem EndsAt.hostTouches_inside_iff (h : EndsAt data len) {host : MkPointer}
    (hhost : ∀ value ∈ host.data, ∃ n, host.len = toULong n ∧ ValueIn data len value n) :
    TouchesInside data.length (len + 4) (hostTouches data host) ↔ HostFits data len host := by
  have hend : mkEndblock.length = 4 := rfl
  have hsize := h.length_le
  unfold hostTouches HostFits
  cases hdata : host.data with
  | none => exact ⟨fun _ _ hvalue => absurd hvalue (Option.not_mem_none _), fun _ => touchesInside_nil⟩
  | some value =>
    obtain ⟨n, hn, hvalue⟩ := hhost value hdata
    have hread : (if toInt host.len ≤ 0 then offsetIn data value + strlen value
        else offsetIn data value + (toInt host.len).toNat - 1) ≤ data.length := by
      have hlen := strlen_le_length value
      have hle := hvalue.length_le
      have hstop := hvalue.le
      split
      · unfold offsetIn
        omega
      · next hpos =>
        rw [hn] at hpos ⊢
        have hint := hvalue.int_le (not_le.mp hpos)
        generalize toInt (toULong n) = m at hpos hint ⊢
        omega
    simp only [touchesInside_cons, Touch.Inside, Option.mem_def, Option.some.injEq, forall_eq']
    cases hcolon : hostColon value host.len with
    | none => exact ⟨fun _ pos hpos => absurd hpos (Option.some_ne_none pos).symm,
        fun _ => ⟨hread, touchesInside_nil⟩⟩
    | some pos =>
      simp only [touchesInside_cons, Touch.Inside, Option.some.injEq, forall_eq']
      by_cases hport : portLen host.len pos ≥ 6
      · rw [if_pos hport]
        exact ⟨fun hin => ⟨by omega, fun hlt => by omega⟩,
          fun hfits => ⟨hread, by omega, touchesInside_nil⟩⟩
      · rw [if_neg hport, touchesInside_cons]
        exact ⟨fun hin => ⟨by omega, fun _ => hin.2.2.1⟩,
          fun hfits => ⟨hread, by omega, hfits.2 (by omega), touchesInside_nil⟩⟩

/-- When the `Host` header is accepted. -/
theorem mkRequestHostProcess_iff (cfg : Config) (host : MkPointer) (sr : SessionRequest) :
    (mkRequestHostProcess cfg host sr).1 = true ↔ HostAccepted host := by
  unfold mkRequestHostProcess HostAccepted
  cases hdata : host.data with
  | none => exact ⟨fun _ _ hvalue => absurd hvalue (Option.not_mem_none _), fun _ => rfl⟩
  | some value =>
    have hsearch : mkStringCharSearchR value 0x3a (toInt host.len) =
        position (hostColon value host.len) := rfl
    simp only [hsearch, Option.mem_def, Option.some.injEq, forall_eq']
    cases hostColon value host.len with
    | none => exact ⟨fun _ pos hpos => absurd hpos (Option.some_ne_none pos).symm, fun _ => rfl⟩
    | some pos =>
      have hlen : ((host.len : Int) - position (some pos) - 1).bmod (2 ^ 16) = portLen host.len pos :=
        rfl
      have hpos : position (some pos) ≥ 0 := Int.natCast_nonneg pos
      have hnat : (position (some pos)).toNat = pos := Int.toNat_natCast pos
      simp only [if_pos hpos, hlen, hnat, Option.some.injEq, forall_eq']
      split
      · exact ⟨fun habs => absurd habs Bool.false_ne_true, fun h => by omega⟩
      · split
        · next hdigits =>
          exact ⟨fun habs => absurd habs Bool.false_ne_true,
            fun h => absurd (hdigits.symm.trans h.2.1) Bool.false_ne_true⟩
        · next hport hdigits =>
          split
          · next hzero =>
            exact ⟨fun habs => absurd habs Bool.false_ne_true, fun h => absurd hzero h.2.2⟩
          · next hzero =>
            exact ⟨fun _ => ⟨by omega, by simpa using hdigits, hzero⟩, fun _ => rfl⟩

theorem strcasestr_le {s search : Bytes} {k : Nat} (h : strcasestr s search = some k)
    (hne : search ≠ []) : k + search.length ≤ strlen s := by
  have hle := (findSub_sound h).length_le
  have hpos := List.length_pos_iff.mpr hne
  simp only [List.length_map, List.length_drop] at hle
  unfold strlen
  omega

theorem EndsAt.searchTouches_inside_iff (h : EndsAt data len) {value search : Bytes} {n : Int}
    (hsearch : IsName search) (hne : search ≠ []) (hvalue : ValueIn data len value n) :
    TouchesInside data.length (len + 4) (searchTouches data value search (toInt (toULong n))) ↔
      SearchFits data len value search (toInt (toULong n)) := by
  have hend : mkEndblock.length = 4 := rfl
  have hlen := strlen_le_length value
  have hle := hvalue.length_le
  unfold searchTouches SearchFits
  by_cases hn : toInt (toULong n) ≤ 0
  · rw [if_pos hn]
    cases hk : strcasestr value search with
    | none =>
      refine ⟨fun _ _ k hk => absurd hk (Option.not_mem_none k), fun _ => ?_⟩
      refine touchesInside_cons.mpr ⟨?_, touchesInside_nil⟩
      show offsetIn data value + strlen value ≤ data.length
      unfold offsetIn
      omega
    | some k =>
      have hmatch := strcasestr_le hk hne
      have hread : offsetIn data value + k + search.length - 1 ≤ data.length := by
        unfold offsetIn
        omega
      simp only [touchesInside_cons, Touch.Inside, Option.mem_def, Option.some.injEq, forall_eq']
      exact ⟨fun hin _ => hin.2.1, fun hfits => ⟨hread, hfits hn, touchesInside_nil⟩⟩
  · rw [if_neg hn]
    have hint := hvalue.int_le (not_le.mp hn)
    have hcr := (crlf_bytes (hvalue.stop (by omega))).1
    have hstop := hvalue.le
    exact ⟨fun _ hn' => absurd hn' hn,
      fun _ => h.scanTouches_inside hsearch hcr (by omega) (by omega)⟩

theorem EndsAt.connectionTouches_inside_iff (h : EndsAt data len) {connection : MkPointer}
    (hvalues : ∀ value ∈ connection.data, ∃ n,
      connection.len = toULong n ∧ ValueIn data len value n) :
    TouchesInside data.length (len + 4) (connectionTouches data connection) ↔
      ConnectionFits data len connection := by
  unfold connectionTouches ConnectionFits
  cases hdata : connection.data with
  | none => exact ⟨fun _ _ hvalue => absurd hvalue (Option.not_mem_none _), fun _ => touchesInside_nil⟩
  | some value =>
    obtain ⟨n, hn, hvalue⟩ := hvalues value hdata
    simp only [Option.mem_def, Option.some.injEq, forall_eq', hn, touchesInside_append,
      h.searchTouches_inside_iff (by decide : IsName keepAliveValue) (by decide) hvalue]
    refine and_congr_right fun _ => ?_
    by_cases hkeep : mkStringSearchN value keepAliveValue (toInt (toULong n)) ≥ 0
    · rw [if_pos hkeep]
      exact ⟨fun _ hlt => by omega, fun _ => touchesInside_nil⟩
    · rw [if_neg hkeep,
        h.searchTouches_inside_iff (by decide : IsName closeValue) (by decide) hvalue]
      exact ⟨fun hfits _ => hfits, fun hfits => hfits (by omega)⟩

/-- The header fields: only the values can lead out of the block. -/
theorem EndsAt.fieldsTouches_inside_iff (h : EndsAt data len) (cfg : Config)
    {rows : List HeaderTocRow} (hrows : ∀ row ∈ rows, RowIn data len row) :
    TouchesInside data.length (len + 4) (fieldsTouches cfg data rows) ↔
      FieldsFit data len rows := by
  have hhostName : IsName rhHost := by decide
  have hconnectionName : IsName rhConnection := by decide
  have hrangeName : IsName rhRange := by decide
  have hsinceName : IsName rhIfModifiedSince := by decide
  obtain ⟨hhost, hrows₁⟩ := mkRequestHeaderGet_spec hhostName hrows
  obtain ⟨hconnection, hrows₂⟩ := mkRequestHeaderGet_spec hconnectionName hrows₁
  obtain ⟨-, hrows₃⟩ := mkRequestHeaderGet_spec hrangeName hrows₂
  unfold fieldsTouches FieldsFit
  simp only [touchesInside_append, h.lookupTouches_inside hhostName hrows, true_and,
    h.hostTouches_inside_iff hhost]
  refine and_congr_right fun _ => ?_
  rw [← mkRequestHostProcess_iff cfg _ {}]
  cases (mkRequestHostProcess cfg (mkRequestHeaderGet rows rhHost).1 {}).1 with
  | false => exact ⟨fun _ habs => absurd habs Bool.false_ne_true, fun _ => touchesInside_nil⟩
  | true =>
    simp only [Bool.true_eq_false, if_false, touchesInside_append, true_and, forall_const,
      h.lookupTouches_inside hconnectionName hrows₁, h.lookupTouches_inside hrangeName hrows₂,
      h.lookupTouches_inside hsinceName hrows₃, h.connectionTouches_inside_iff hconnection]

/-- Past the query search only the header values matter: the rest follows from the blank
line of the block. -/
theorem EndsAt.lineTouches_inside_iff (h : EndsAt data len) (cfg : Config) {blank fhLimit : Nat}
    (hf : strchr data 0x0a = some fhLimit) :
    TouchesInside data.length (len + 4) (lineTouches cfg data len blank fhLimit) ↔
      ∀ last, memrchr data 0x20 (if fhLimit = 0 then strlen data else fhLimit) = some last →
        (fhLimit = 0 → last < len + mkEndblock.length) ∧
          (2 ≤ last → blank + 2 ≤ last → QueryFits data len (blank + 1) (last + 1) ∧
            (last + 2 ≠ fhLimit → FieldsFit data len (headerRows data len fhLimit))) := by
  have hend : mkEndblock.length = 4 := rfl
  have hsize := h.length_le
  have hnew := h.newline hf
  have hstrlen := strlen_le_length data
  unfold lineTouches
  cases hmem : memrchr data 0x20 (if fhLimit = 0 then strlen data else fhLimit) with
  | none =>
    simp only [touchesInside_cons, Touch.Inside]
    refine ⟨fun _ last hlast => absurd hlast (Option.some_ne_none last).symm,
      fun _ => ⟨?_, touchesInside_nil⟩⟩
    split <;> omega
  | some last =>
    have hlast := (memrchr_spec hmem).1
    have hlimit : fhLimit = 0 ∨ last < fhLimit := by
      by_cases h0 : fhLimit = 0
      · exact .inl h0
      · rw [if_neg h0] at hlast
        exact .inr hlast
    have hread : (if fhLimit = 0 then strlen data else fhLimit - 1) ≤ data.length := by
      split <;> omega
    simp only [touchesInside_cons, Touch.Inside, Option.some.injEq, forall_eq']
    by_cases hstop : last ≤ 1 ∨ last < blank + 2
    · rw [if_pos hstop]
      constructor
      · rintro ⟨-, hlt, -⟩
        exact ⟨fun _ => by omega, fun _ _ => by omega⟩
      · rintro ⟨hzero, -⟩
        exact ⟨hread, by omega, by omega, touchesInside_nil⟩
    · rw [if_neg hstop, touchesInside_append, queryTouches_inside_iff (Nat.succ_pos last)]
      have hrest : TouchesInside data.length (len + 4)
          (if last + 2 = fhLimit then []
          else
            protocolTouches data (last + 1) fhLimit ++ (.offset (fhLimit + 1) ::
              (decodeTouches data (blank + 1) last ++
                (rowTouches len mkHeadersTocLen (data.drop (fhLimit + 1)) (fhLimit + 1) none ++
                  fieldsTouches cfg data (headerRows data len fhLimit))))) ↔
          (last + 2 ≠ fhLimit → FieldsFit data len (headerRows data len fhLimit)) := by
        have hdecode : last ≤ data.length := by
          split at hlast <;> omega
        have hrows := @EndsAt.rowTouches_inside data len h mkHeadersTocLen (fhLimit + 1) none
          fun _ => by omega
        by_cases hempty : last + 2 = fhLimit
        · rw [if_pos hempty]
          exact ⟨fun _ hne => absurd hempty hne, fun _ => touchesInside_nil⟩
        · rw [if_neg hempty]
          simp only [touchesInside_append, touchesInside_cons, Touch.Inside, forall_const,
            ne_eq, hempty, not_false_eq_true, h.protocolTouches_inside hf hlimit,
            decodeTouches_inside hdecode, hrows,
            h.fieldsTouches_inside_iff cfg fun row hrow => h.headerRows_rowIn hf hrow, true_and]
          exact and_iff_right (by omega)
      rw [hrest]
      constructor
      · rintro ⟨-, hlt, -, hquery⟩
        exact ⟨fun _ => by omega, fun _ _ => hquery⟩
      · rintro ⟨hzero, hquery⟩
        exact ⟨hread, by omega, by omega, hquery (by omega) (by omega)⟩

/-- **One block**: what is touched for it stays inside exactly when its first line
and its headers fit. -/
theorem EndsAt.headerTouches_inside_iff (h : EndsAt data len) (cfg : Config) :
    TouchesInside data.length (len + 4) (headerTouches cfg data len) ↔ LineFits data len := by
  have hend : mkEndblock.length = 4 := rfl
  have hstrlen := strlen_le_length data
  unfold headerTouches
  cases hs : strchr data 0x20 with
  | none =>
    constructor
    · intro hin
      have := hin .missing (by simp)
      contradiction
    · rintro ⟨⟨blank, hblank, -⟩, -, -⟩
      exact absurd (hs ▸ hblank) (Option.some_ne_none blank).symm
  | some blank =>
    cases hf : strchr data 0x0a with
    | none =>
      constructor
      · intro hin
        have := hin .missing (by simp)
        contradiction
      · rintro ⟨-, hnewline, -⟩
        rw [hf] at hnewline
        contradiction
    | some fhLimit =>
      have hblank := strchr_lt hs
      have hnewline := strchr_lt hf
      have hnew := h.newline hf
      simp only [touchesInside_cons, Touch.Inside, Option.getD_some, h.lineTouches_inside_iff cfg hf]
      constructor
      · rintro ⟨-, -, hlt, -, hline⟩
        refine ⟨⟨blank, hs, by omega⟩, by rw [hf]; rfl, ?_⟩
        intro blank' fhLimit' last hs' hf' hlast
        obtain rfl := Option.some.inj (hs.symm.trans hs')
        obtain rfl := Option.some.inj (hf.symm.trans hf')
        exact hline last hlast
      · rintro ⟨⟨blank', hs', hlt⟩, -, hline⟩
        obtain rfl := Option.some.inj (hs.symm.trans hs')
        exact ⟨by omega, by omega, by omega, by omega, fun last hlast => hline blank fhLimit last hs hf hlast⟩

end

/-! ## all blocks -/

section

variable {cs : ClientSession}

theorem blockEnd_endsAt {p i stop : Nat} (hpos : cs.bodyPosEnd = p)
    (hp : mkEndblock <+: cs.body.drop p) (hi : (i : Int) ≤ cs.bodyPosEnd)
    (h : blockEnd cs i = some stop) : EndsAt (cs.body.drop i) (stop - i) := by
  refine ⟨?_⟩
  unfold blockEnd at h
  split at h
  · obtain ⟨k, hk, rfl⟩ := Option.map_eq_some_iff.mp h
    rw [Nat.add_sub_cancel_left]
    exact isPrefix_drop_of_strstr hk
  · obtain rfl := Option.some.inj h
    rw [List.drop_drop, show i + (cs.bodyPosEnd.toNat - i) = p by omega]
    exact hp

/-- A block ends with a blank line. -/
theorem parseBlocks_endsAt {p fuel i : Nat} (hpos : cs.bodyPosEnd = p)
    (hp : mkEndblock <+: cs.body.drop p) {b : Nat × Option Nat} (hb : b ∈ parseBlocks cs fuel i)
    {stop : Nat} (hstop : stop ∈ b.2) : EndsAt (cs.body.drop b.1) (stop - b.1) := by
  induction fuel generalizing i with
  | zero => exact absurd hb List.not_mem_nil
  | succ fuel ih =>
    rw [parseBlocks] at hb
    split at hb
    · next hi =>
      rcases List.mem_cons.mp hb with rfl | hb
      · exact blockEnd_endsAt hpos hp hi hstop
      · split at hb
        · exact ih hb
        · exact absurd hb List.not_mem_nil
    · exact absurd hb List.not_mem_nil

theorem le_blockEnd {i stop : Nat} (hi : (i : Int) ≤ cs.bodyPosEnd)
    (h : blockEnd cs i = some stop) : i ≤ stop := by
  unfold blockEnd at h
  split at h
  · obtain ⟨k, -, rfl⟩ := Option.map_eq_some_iff.mp h
    exact Nat.le_add_right i k
  · rw [← Option.some.inj h]
    omega

/-- A block with an end is the next node. -/
theorem mkRequestParseLoop_blockEnd {fuel i stop : Nat} (hi : (i : Int) ≤ cs.bodyPosEnd)
    (h : blockEnd cs i = some stop) :
    mkRequestParseLoop cs (fuel + 1) i =
      (mkRequestParseLoop cs fuel (stop + mkEndblock.length)).map (requestNode cs i stop :: ·) := by
  unfold blockEnd at h
  split at h
  · next hlater =>
    obtain ⟨k, hk, rfl⟩ := Option.map_eq_some_iff.mp h
    exact mkRequestParseLoop_block hlater hi hk
  · next hfirst =>
    have hstop : cs.bodyPosEnd = (stop : Int) := by
      have := Option.some.inj h
      omega
    rw [mkRequestParseLoop, if_pos hi]
    simp only [if_neg hfirst, hstop]
    rw [if_neg (by omega)]
    rfl

/-- Blocks that all have an end are the nodes of the request list. -/
theorem mkRequestParseLoop_eq_blocks {fuel i : Nat}
    (h : ∀ b ∈ parseBlocks cs fuel i, b.2.isSome) :
    mkRequestParseLoop cs fuel i =
      some ((parseBlocks cs fuel i).map fun b => requestNode cs b.1 (b.2.getD 0)) := by
  induction fuel generalizing i with
  | zero => rfl
  | succ fuel ih =>
    rw [parseBlocks] at h ⊢
    by_cases hi : (i : Int) ≤ cs.bodyPosEnd
    · rw [if_pos hi] at h ⊢
      obtain ⟨stop, hstop⟩ : ∃ stop, blockEnd cs i = some stop :=
        Option.isSome_iff_exists.mp (h _ List.mem_cons_self)
      rw [mkRequestParseLoop_blockEnd hi hstop]
      rw [hstop] at h ⊢
      rw [ih fun b hb => h b (List.mem_cons_of_mem _ hb)]
      rfl
    · rw [mkRequestParseLoop, if_neg hi, if_neg hi]
      rfl

/-- When the blocks are accepted. -/
theorem mkRequestParse_eq_zero_iff (hlist : cs.requestList = [])
    (h : ∀ b ∈ blocks cs, b.2.isSome) : (mkRequestParse cs).1 = 0 ↔ Pipelines cs := by
  have hall : (((blocks cs).map fun b => requestNode cs b.1 (b.2.getD 0)).all fun sr =>
      sr.method == .get || sr.method == .head) = true ↔
      ∀ b ∈ blocks cs, blockMethod cs b.1 = .get ∨ blockMethod cs b.1 = .head := by
    simp only [List.all_map, List.all_eq_true, Function.comp_apply, Bool.or_eq_true, beq_iff_eq]
    rfl
  have hloop : mkRequestParseLoop cs (cs.bodyPosEnd + 2).toNat 0 =
      some ((blocks cs).map fun b => requestNode cs b.1 (b.2.getD 0)) :=
    mkRequestParseLoop_eq_blocks h
  unfold mkRequestParse Pipelines
  rw [hloop]
  simp only [hlist, List.nil_append, List.length_map]
  by_cases hone : (blocks cs).length > 1
  · rw [if_pos hone]
    by_cases hmethods : ∀ b ∈ blocks cs, blockMethod cs b.1 = .get ∨ blockMethod cs b.1 = .head
    · rw [if_pos (hall.mpr hmethods)]
      exact ⟨fun _ => .inr hmethods, fun _ => rfl⟩
    · rw [if_neg fun hm => hmethods (hall.mp hm)]
      refine ⟨fun habs => absurd habs (by decide : (-1 : Int) ≠ 0), ?_⟩
      rintro (hle | hm)
      · omega
      · exact absurd hm hmethods
  · rw [if_neg hone]
    exact ⟨fun _ => .inl (by omega), fun _ => rfl⟩

/-- Blocks are cut from the front. -/
theorem le_of_mem_parseBlocks {fuel i : Nat} {b : Nat × Option Nat}
    (hb : b ∈ parseBlocks cs fuel i) : i ≤ b.1 := by
  induction fuel generalizing i with
  | zero => exact absurd hb List.not_mem_nil
  | succ fuel ih =>
    rw [parseBlocks] at hb
    split at hb
    · next hi =>
      rcases List.mem_cons.mp hb with rfl | hb
      · exact le_rfl
      · split at hb
        · next stop hstop =>
          have hle := ih hb
          have hstart := le_blockEnd hi hstop
          omega
        · exact absurd hb List.not_mem_nil
    · exact absurd hb List.not_mem_nil

/-- A block without an end is the only one when nothing is used of it. -/
theorem parseBlocks_none {fuel : Nat} {b b' : Nat × Option Nat} (hb : b ∈ parseBlocks cs fuel 0)
    (hnone : b.2 = none) (hfirst : b.1 = 0) (hb' : b' ∈ parseBlocks cs fuel 0) : b'.2 = none := by
  have hend : mkEndblock.length = 4 := rfl
  cases fuel with
  | zero => exact absurd hb List.not_mem_nil
  | succ fuel =>
    rw [parseBlocks] at hb hb'
    split at hb
    · next hi =>
      rw [if_pos hi] at hb'
      cases hstop : blockEnd cs 0 with
      | none =>
        rw [hstop] at hb'
        rcases List.mem_cons.mp hb' with rfl | hb'
        · rfl
        · exact absurd hb' List.not_mem_nil
      | some stop =>
        rw [hstop] at hb
        rcases List.mem_cons.mp hb with rfl | hb
        · contradiction
        · have := le_of_mem_parseBlocks hb
          omega
    · exact absurd hb List.not_mem_nil

/-- What is touched to cut a block stays inside exactly when it has an end and its
method fits. -/
theorem parseTouches_inside_iff {b : Nat × Option Nat}
    (hends : ∀ stop ∈ b.2, EndsAt (cs.body.drop b.1) (stop - b.1)) :
    TouchesInside (cs.body.drop b.1).length (blockSize b.1 b.2) (parseTouches cs b.1 b.2) ↔
      (b.2 = none → b.1 = 0) ∧
        ∀ stop ∈ b.2, b.1 ≠ 0 → MethodFits (cs.body.drop b.1) (stop - b.1) := by
  obtain ⟨i, stop⟩ := b
  cases stop with
  | none =>
    have hlen := strlen_le_length (cs.body.drop i)
    simp only [parseTouches, touchesInside_cons, Touch.Inside]
    by_cases h0 : i = 0
    · rw [if_pos h0]
      exact ⟨fun _ => ⟨fun _ => h0, fun _ hstop => absurd hstop (Option.not_mem_none _)⟩,
        fun _ => ⟨hlen, touchesInside_nil⟩⟩
    · rw [if_neg h0]
      constructor
      · rintro ⟨-, hmissing⟩
        exact absurd (hmissing .missing List.mem_cons_self) id
      · intro h
        exact absurd (h.1 trivial) h0
  | some stop =>
    have hsize : stop - i + 4 ≤ (cs.body.drop i).length := (hends stop rfl).length_le
    have hsearch : TouchesInside (cs.body.drop i).length (blockSize i (some stop))
        (if cs.counterConnections > 0 then [.read (stop - i + 3)] else []) := by
      split
      · exact touchesInside_cons.mpr ⟨show stop - i + 3 ≤ _ by omega, touchesInside_nil⟩
      · exact touchesInside_nil
    have hdata : TouchesInside (cs.body.drop i).length (blockSize i (some stop))
        (if blockMethod cs i = .post then [.offset (stop - i + mkEndblock.length)] else []) := by
      split
      · exact touchesInside_cons.mpr ⟨le_rfl, touchesInside_nil⟩
      · exact touchesInside_nil
    simp only [parseTouches, touchesInside_append, Option.mem_def, Option.some.injEq, forall_eq']
    by_cases h0 : i = 0
    · rw [if_pos h0]
      exact ⟨fun _ => ⟨fun _ => h0, fun hne => absurd h0 hne⟩,
        fun _ => ⟨hsearch, hdata, touchesInside_nil⟩⟩
    · rw [if_neg h0]
      constructor
      · rintro ⟨-, -, hmethod⟩
        exact ⟨fun hnone => absurd hnone (Option.some_ne_none stop),
          fun _ => methodTouches_inside_iff.mp hmethod⟩
      · rintro ⟨-, hmethod⟩
        exact ⟨hsearch, hdata, methodTouches_inside_iff.mpr (hmethod h0)⟩

/-- **The parser stays inside the buffer** exactly when the blocks of a complete
request fit. -/
theorem request_inside_iff {cfg : Config} {cs' : ClientSession} (h : Buffered cs)
    (hpending : mkHttpPendingRequest cfg cs = (0, cs')) : RequestInside cfg cs' ↔ Fits cs' := by
  obtain ⟨p, hpos, hp, hlist⟩ : ∃ p : Nat, cs'.bodyPosEnd = p ∧ mkEndblock <+: cs'.body.drop p ∧
      cs'.requestList = [] := by
    rcases @mkHttpPendingRequest_cases cfg cs h with hwait | ⟨ret, p, method, status, hp, hdone⟩
    · rw [hwait] at hpending
      exact absurd (Prod.mk.inj hpending).1 (by decide)
    · rw [hdone] at hpending
      obtain rfl := (Prod.mk.inj hpending).2
      exact ⟨p, rfl, hp, h.list⟩
  have hends : ∀ b ∈ blocks cs', ∀ stop ∈ b.2, EndsAt (cs'.body.drop b.1) (stop - b.1) :=
    fun b hb stop hstop => parseBlocks_endsAt hpos hp hb hstop
  have hcut : (∀ b ∈ blocks cs', TouchesInside (cs'.body.drop b.1).length (blockSize b.1 b.2)
      (parseTouches cs' b.1 b.2)) ↔
      ∀ b ∈ blocks cs', (b.2 = none → b.1 = 0) ∧
        ∀ stop ∈ b.2, b.1 ≠ 0 → MethodFits (cs'.body.drop b.1) (stop - b.1) :=
    forall₂_congr fun b hb => parseTouches_inside_iff (hends b hb)
  have hheader : (∀ b ∈ blocks cs', ∀ stop ∈ b.2,
      TouchesInside (cs'.body.drop b.1).length (blockSize b.1 b.2)
        (headerTouches cfg (cs'.body.drop b.1) (stop - b.1))) ↔
      ∀ b ∈ blocks cs', ∀ stop ∈ b.2, LineFits (cs'.body.drop b.1) (stop - b.1) := by
    refine forall₂_congr fun b hb => forall₂_congr fun stop hstop => ?_
    rw [show blockSize b.1 b.2 = stop - b.1 + 4 by rw [hstop]; rfl]
    exact (hends b hb stop hstop).headerTouches_inside_iff cfg
  unfold RequestInside Fits
  rw [hcut, hheader]
  refine and_congr_right fun hfits => ?_
  by_cases hall : ∀ b ∈ blocks cs', b.2.isSome
  · rw [mkRequestParse_eq_zero_iff hlist hall]
  · -- the first block has no end: there is no header to look at
    push Not at hall
    obtain ⟨b, hb, hnone⟩ := hall
    have hnone' : b.2 = none := Option.not_isSome_iff_eq_none.mp hnone
    have hempty : ∀ b' ∈ blocks cs', ∀ stop ∈ b'.2, LineFits (cs'.body.drop b'.1) (stop - b'.1) := by
      intro b' hb' stop hstop
      rw [parseBlocks_none hb hnone' ((hfits b hb).1 hnone') hb'] at hstop
      exact absurd hstop (Option.not_mem_none stop)
    exact ⟨fun _ _ => hempty, fun _ _ => hempty⟩

end

/-- What is left unspecified by the source does not matter for a block that fits. -/
theorem LineFits.mkRequestHeaderProcess_nullDiff {sr : SessionRequest} {len : Nat}
    (h : LineFits (sr.body.data.getD []) len) (cfg : Config) (sys : Sys) (diff : Int) :
    mkRequestHeaderProcess cfg { sys with nullDiff := diff } sr = mkRequestHeaderProcess cfg sys sr := by
  obtain ⟨blank, hblank, -⟩ := h.blank
  obtain ⟨fhLimit, hnewline⟩ := Option.isSome_iff_exists.mp h.newline
  have hindex : ∀ sys : Sys, indexOf sys (sr.body.data.getD []) 0x20 = blank ∧
      indexOf sys (sr.body.data.getD []) 0x0a = fhLimit := by
    intro sys
    rw [indexOf, indexOf, hblank, hnewline]
    exact ⟨rfl, rfl⟩
  unfold mkRequestHeaderProcess
  simp only [hindex]

/-- The session that has received `body` in its first round. -/
def receivedSession (body : Bytes) : ClientSession := { sampleSession with body := body }

theorem buffered_receivedSession {body : Bytes} (h : body.length ≤ sampleSession.bodySize) :
    Buffered (receivedSession body) :=
  ⟨.inl rfl, rfl, h⟩

theorem request_inside_sampleRequest :
    RequestInside sampleConfig (mkHttpPendingRequest sampleConfig (receivedSession sampleRequest)).2 ∧
      Fits (mkHttpPendingRequest sampleConfig (receivedSession sampleRequest)).2 := by
  have hinside : RequestInside sampleConfig (mkHttpPendingRequest sampleConfig (receivedSession sampleRequest)).2 := by
    decide
  have hpending : mkHttpPendingRequest sampleConfig (receivedSession sampleRequest) =
      (0, (mkHttpPendingRequest sampleConfig (receivedSession sampleRequest)).2) :=
    Prod.ext (by decide) rfl
  exact ⟨hinside, (request_inside_iff (buffered_receivedSession (by decide)) hpending).mp hinside⟩

/-- A complete request without a blank: the difference from `NULL` is used. -/
theorem blank_not_found :
    ¬ ∀ (cfg : Config) (cs cs' : ClientSession), Buffered cs →
      mkHttpPendingRequest cfg cs = (0, cs') → RequestInside cfg cs' := by
  intro h
  have hpending : mkHttpPendingRequest sampleConfig (receivedSession (ascii "GET\r\n\r\n".toList)) =
      (0, (mkHttpPendingRequest sampleConfig (receivedSession (ascii "GET\r\n\r\n".toList))).2) :=
    Prod.ext (by decide) rfl
  have hinside := h sampleConfig _ _ (buffered_receivedSession (by decide)) hpending
  exact absurd hinside (by decide)

end Monkey
