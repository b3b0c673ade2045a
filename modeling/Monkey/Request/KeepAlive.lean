import Monkey.Request.HostPort
import Monkey.Strings.Search

/-!
# Monkey.Request.KeepAlive

What the `Connection` field of a request decides (`mk_request_header_process`).  Its value
is searched for two words with a bound on where they start.  A word has no carriage
return, so one that starts in a value also ends in it; but a field without a value is
searched without a bound, and whatever follows it decides.
-/

namespace Monkey

/-! ## searching a value -/

section search

variable {needle value tail : Bytes}

/-- The word is somewhere in the text, in whatever case. -/
def Contains (text word : Bytes) : Prop := word.map toupper <:+: text.map toupper

instance (text word : Bytes) : Decidable (Contains text word) := inferInstanceAs (Decidable (_ <:+: _))

theorem position_nonneg_iff {found : Option Nat} : 0 ≤ position found ↔ ∃ p, found = some p := by
  cases found with
  | none => simp [position]
  | some p => simp [position]

theorem contains_iff_findSub {text word : Bytes} (hne : word ≠ []) :
    Contains text word ↔ ∃ p, findSub (word.map toupper) (text.map toupper) = some p ∧ p < text.length := by
  constructor
  · rintro ⟨before, after, heq⟩
    have hlen := congrArg List.length heq
    have hpos := List.length_pos_iff.mpr hne
    simp only [List.length_append, List.length_map] at hlen
    obtain ⟨p, hp, hle⟩ := @findSub_of_prefix_drop (word.map toupper) (text.map toupper) before.length
      (by rw [← heq, List.append_assoc, List.drop_left]; exact List.prefix_append _ _)
      (by rw [List.length_map]; omega)
    exact ⟨p, hp, by omega⟩
  · rintro ⟨p, hp, -⟩
    exact (findSub_sound hp).isInfix.trans (List.drop_suffix _ _).isInfix

/-- A word found without a bound is anywhere in the string. -/
theorem mkStringSearchN_unbounded (hne : needle ≠ []) (data : Bytes) {len : Int} (hlen : len ≤ 0) :
    0 ≤ mkStringSearchN data needle len ↔ Contains (cstr data) needle := by
  rw [mkStringSearchN, if_pos hlen, mkStringSearchI, strcasestr, contains_iff_findSub hne, position_nonneg_iff]
  refine exists_congr fun p => ⟨fun h => ⟨h, ?_⟩, fun h => h.1⟩
  have hle := (findSub_sound h).length_le
  have hpos := List.length_pos_iff.mpr hne
  simp only [List.length_drop, List.length_map] at hle
  omega

/-- **A word that starts in a value ends in it**: the line end behind the value is no part
of a word. -/
theorem mkStringSearchN_value (hne : needle ≠ []) (hword : IsName needle) (h0 : 0 ∉ value)
    (hvalue : value ≠ []) : 0 ≤ mkStringSearchN (value ++ 0x0d :: tail) needle value.length ↔
      Contains value needle := by
  have hpos := List.length_pos_iff.mpr hvalue
  have hcstr : cstr (value ++ 0x0d :: tail) = value ++ 0x0d :: cstr tail := by
    rw [cstr_append h0]
    rfl
  rw [mkStringSearchN_eq, mkStringSearchBase_eq hne hword.1, hcstr, contains_iff_findSub hne]
  change 0 ≤ position ((findSub (needle.map toupper) ((value ++ 0x0d :: cstr tail).map toupper)).filter _) ↔ _
  have hneedle : needle.map toupper ≠ [] := by simpa using hne
  rw [List.map_append, position_nonneg_iff]
  constructor
  · rintro ⟨p, hp⟩
    obtain ⟨hfound, hstart⟩ := Option.filter_eq_some_iff.mp hp
    have hlt : p < value.length := by simpa [hvalue] using hstart
    have hsound := findSub_sound hfound
    have hfit : needle.length ≤ value.length - p := by
      by_contra hlong
      have hbyte := List.prefix_iff_getElem?.mp hsound (value.length - p) (by simp; omega)
      rw [List.getElem?_drop, show p + (value.length - p) = (value.map toupper).length by simp; omega,
        List.getElem?_append_right le_rfl, Nat.sub_self, List.map_cons, List.getElem?_cons_zero,
        Option.some.injEq] at hbyte
      exact hword.2 (hbyte ▸ List.getElem_mem _)
    rw [List.drop_append_of_le_length (by simp; omega)] at hsound
    have hin := List.prefix_of_prefix_length_le hsound (List.prefix_append _ _) (by simpa using hfit)
    obtain ⟨q, hq, hle⟩ := findSub_of_prefix_drop hin (by simp; omega)
    exact ⟨q, hq, by omega⟩
  · rintro ⟨p, hp, hlt⟩
    refine ⟨p, ?_⟩
    rw [findSub_append_of_some hp hneedle, Option.filter_some_pos (by simpa using .inl hlt)]

end search

/-! ## the decision -/

/-- Whether the connection of a request is kept, and whether it is closed. -/
def SessionRequest.decision (sr : SessionRequest) : Bool × Bool := (sr.keepAlive, sr.closeNow)

/-- What the protocol decides. -/
def protocolDecision (protocol : Protocol) (before : Bool × Bool) : Bool × Bool :=
  match protocol with
  | .http10 => (false, true)
  | .http11 => (true, false)
  | _ => before

/-- What a `Connection` value decides, over what the protocol does. -/
def connectionDecision (value : Bytes) (default : Bool × Bool) : Bool × Bool :=
  if Contains value keepAliveValue then (true, false)
  else if Contains value closeValue then (false, true)
  else default

/-- What `mk_request_header_process` finds in a `Connection` value. -/
theorem mkRequestConnectionProcess_decision {sr : SessionRequest} {data : Bytes}
    (hdata : sr.connection.data = some data) {value : Bytes}
    (hsearch : ∀ word ∈ [keepAliveValue, closeValue],
      (0 ≤ mkStringSearchN data word (toInt sr.connection.len) ↔ Contains value word)) :
    (mkRequestConnectionProcess sr).decision =
      connectionDecision value (protocolDecision sr.protocol sr.decision) := by
  have hkeep := hsearch keepAliveValue (by simp)
  have hclose := hsearch closeValue (by simp)
  unfold mkRequestConnectionProcess connectionDecision
  simp only [← hkeep, ← hclose]
  cases hprotocol : sr.protocol
  all_goals
    simp only [hdata, ge_iff_le]
    split
    · rfl
    · split <;> simp only [SessionRequest.decision, protocolDecision]

theorem mkRequestConnectionProcess_none {sr : SessionRequest} (hdata : sr.connection.data = none) :
    (mkRequestConnectionProcess sr).decision = protocolDecision sr.protocol sr.decision := by
  unfold mkRequestConnectionProcess
  cases hprotocol : sr.protocol <;> simp only [hdata] <;> rfl

/-! ## the field -/

/-- The value of a `Connection` row as it is looked up, up to the end of the row. -/
def HeaderTocRow.connectionValue (row : HeaderTocRow) : Bytes := row.text.drop (rhConnection.length + 1)

/-- The text from the start of that value to the next NUL. -/
def HeaderTocRow.fromConnection (row : HeaderTocRow) : Bytes := cstr (row.init.drop (rhConnection.length + 1))

/-- The first `Connection` row of a request. -/
def connectionRow (sys : Sys) (sr : SessionRequest) : Option HeaderTocRow :=
  let body := sr.body.data.getD []
  let headersInit := indexOf sys body 0x0a - 1 + 2
  (mkRequestHeaderTocParse (body.drop headersInit.toNat) ((sr.body.len : Int) - headersInit)).find?
    (·.hasKey rhConnection)

/-- The lookup of `Host` does not take the `Connection` row. -/
theorem lookupRow_connection {rows : List HeaderTocRow} (hrows : ∀ row ∈ rows, IsRow row ∧ row.found = false) :
    lookupRow (mkRequestHeaderGet rows rhHost).2 rhConnection = rows.find? (·.hasKey rhConnection) := by
  unfold lookupRow
  induction rows with
  | nil => rfl
  | cons row rows ih =>
      obtain ⟨⟨hrow, hfound⟩, hrest⟩ := List.forall_mem_cons.mp hrows
      rw [mkRequestHeaderGet, hrow.strncasecmp_eq (by decide : IsName rhHost), List.find?_cons]
      cases hhost : row.hasKey rhHost with
      | false =>
          rw [if_neg (by simp), List.find?_cons, hfound, ih hrest]
          rfl
      | true =>
          have hnot : row.hasKey rhConnection = false := by
            by_contra hboth
            rw [Bool.not_eq_false] at hboth
            have hprefix := List.prefix_of_prefix_length_le (List.isPrefixOf_iff_prefix.mp hhost)
              (List.isPrefixOf_iff_prefix.mp hboth) (by decide)
            exact absurd hprefix (by decide)
          have hsame : rows.find? (fun row => !row.found && row.hasKey rhConnection) =
              rows.find? (·.hasKey rhConnection) :=
            List.find?_congr fun row hmem => by simp [(hrest row hmem).2]
          rw [if_pos ⟨hfound, rfl⟩, List.find?_cons, hnot]
          exact hsame

theorem mkRequestHeaderTocLoop_found {len : Int} {n off : Nat} {p : Bytes} {l : Option Nat}
    {row : HeaderTocRow} (hrow : row ∈ mkRequestHeaderTocLoop len n p off l) : row.found = false := by
  induction n generalizing p off l with
  | zero => exact absurd hrow List.not_mem_nil
  | succ n ih =>
      rw [mkRequestHeaderTocLoop] at hrow
      split at hrow
      · split at hrow
        · obtain rfl | hmem := List.mem_cons.mp hrow
          · rfl
          · exact ih hmem
        · exact absurd hrow List.not_mem_nil
      · exact absurd hrow List.not_mem_nil

section decided

variable {row : HeaderTocRow}

/-- The bytes behind the name, up to the end of the row and on. -/
theorem IsRow.init_eq (h : IsRow row) (hvalue : row.connectionValue ≠ []) :
    ∃ tail, row.init.drop (rhConnection.length + 1) = row.connectionValue ++ 0x0d :: tail ∧
      0 ∉ row.connectionValue := by
  have hlong : rhConnection.length + 1 < row.len := by
    by_contra hle
    refine hvalue (List.drop_eq_nil_of_le ?_)
    rw [h.text_length]
    omega
  have hsplit := (List.take_append_drop row.len row.init).symm
  obtain ⟨tail, htail⟩ := isPrefix_drop_of_strstr h
  refine ⟨0x0a :: tail, ?_, ?_⟩
  · rw [HeaderTocRow.connectionValue, HeaderTocRow.text]
    conv_lhs => rw [hsplit, ← htail]
    rw [List.drop_append_of_le_length (by have := h.length_le; simp; omega)]
    rfl
  · intro hmem
    refine strstr_no_nul h (by decide : mkCrlf ≠ []) ?_
    exact List.take_subset_take_left _ (by omega) (List.mem_of_mem_drop hmem)

/-- What the `Connection` row decides, in a block of less than two gigabytes. -/
theorem mkRequestConnectionProcess_row (h : IsRow row) (hkey : row.hasKey rhConnection = true)
    (hlen : row.len < 2 ^ 31) {sr : SessionRequest}
    (hconn : sr.connection = ⟨some (row.init.drop (rhConnection.length + 1)),
      toULong ((row.len : Int) - (rhConnection.length + 1))⟩) :
    (mkRequestConnectionProcess sr).decision =
      connectionDecision (if row.connectionValue = [] then row.fromConnection else row.connectionValue)
        (protocolDecision sr.protocol sr.decision) := by
  have hle := h.key_length_le hkey
  have hdata : sr.connection.data = some (row.init.drop (rhConnection.length + 1)) := by rw [hconn]
  have hcount : sr.connection.len = toULong ((row.len : Int) - (rhConnection.length + 1)) := by rw [hconn]
  have htext : row.connectionValue.length = row.len - (rhConnection.length + 1) := by
    rw [HeaderTocRow.connectionValue, List.length_drop, h.text_length]
  refine mkRequestConnectionProcess_decision hdata fun word hword => ?_
  have hname : word ≠ [] ∧ IsName word := by
    obtain rfl | rfl := by simpa using hword
    all_goals decide
  rw [hcount]
  split
  · next hnil =>
      have hshort : row.len ≤ rhConnection.length + 1 := by
        rw [hnil, List.length_nil] at htext
        omega
      refine mkStringSearchN_unbounded hname.1 _ ?_
      obtain hempty | hmissing : row.len = rhConnection.length + 1 ∨ row.len = rhConnection.length := by omega
      · rw [hempty]
        decide
      · rw [hmissing]
        decide
  · next hvalue =>
      obtain ⟨tail, hinit, h0⟩ := h.init_eq hvalue
      have hpos := List.length_pos_iff.mpr hvalue
      have hword := @mkStringSearchN_value word row.connectionValue tail hname.1 hname.2 h0 hvalue
      have hsize : toInt (toULong ((row.len : Int) - (rhConnection.length + 1))) = row.connectionValue.length := by
        rw [htext] at hpos ⊢
        rw [toInt_eq_self] <;> unfold toULong <;> omega
      rwa [hinit, hsize]

end decided

/-- The text that decides, where it is that of a `Connection` row. -/
def decidingText (row : HeaderTocRow) : Bytes :=
  if row.connectionValue = [] then row.fromConnection else row.connectionValue

theorem mkRequestFieldsProcess_decision (cfg : Config) {headers : Bytes} {len : Int}
    (hlen : headers.length < 2 ^ 31) {sr : SessionRequest}
    (hret : (mkRequestFieldsProcess cfg headers len sr).1 = 0) :
    (mkRequestFieldsProcess cfg headers len sr).2.decision =
      ((mkRequestHeaderTocParse headers len).find? (·.hasKey rhConnection)).elim
        (protocolDecision sr.protocol sr.decision)
        fun row => connectionDecision (decidingText row) (protocolDecision sr.protocol sr.decision) := by
  have hrows : ∀ row ∈ mkRequestHeaderTocParse headers len, IsRow row ∧ row.found = false :=
    fun row hrow => ⟨(mkRequestHeaderTocLoop_isRow hrow).1, mkRequestHeaderTocLoop_found hrow⟩
  have hspan : (mkRequestHeaderGet (mkRequestHeaderTocParse headers len) rhHost).2.map HeaderTocRow.span =
      (mkRequestHeaderTocParse headers len).map HeaderTocRow.span := mkRequestHeaderGet_span _ _
  have hget := mkRequestHeaderGet_fst (by decide : IsName rhConnection)
    fun row hrow => (isRow_of_span hspan hrow).1
  rw [lookupRow_connection hrows] at hget
  unfold mkRequestFieldsProcess at hret ⊢
  simp only at hret ⊢
  obtain ⟨host, hostPort, port, hhost⟩ := mkRequestHostProcess_eq cfg
    (mkRequestHeaderGet (mkRequestHeaderTocParse headers len) rhHost).1
    { sr with headersToc := (mkRequestHeaderGet (mkRequestHeaderTocParse headers len) rhHost).2 }
  split at hret
  · contradiction
  · next heq =>
      rw [heq] at hhost
      subst hhost
      simp only
      cases hrow : (mkRequestHeaderTocParse headers len).find? (·.hasKey rhConnection) with
      | none =>
          rw [hrow] at hget
          exact mkRequestConnectionProcess_none (congrArg MkPointer.data hget)
      | some row =>
          rw [hrow] at hget
          have hmem := List.mem_of_find?_eq_some hrow
          have hkey : row.hasKey rhConnection = true := by simpa using List.find?_some hrow
          have hin := (hrows row hmem).1.length_le
          have hout := (mkRequestHeaderTocLoop_isRow hmem).2
          exact mkRequestConnectionProcess_row (hrows row hmem).1 hkey (by omega) hget

/-- The same of the whole function, where it accepts the request. -/
theorem mkRequestHeaderProcess_decision (cfg : Config) (sys : Sys) {sr : SessionRequest}
    (hlen : (sr.body.data.getD []).length < 2 ^ 31) (hret : (mkRequestHeaderProcess cfg sys sr).1 = 0) :
    (mkRequestHeaderProcess cfg sys sr).2.decision =
      (connectionRow sys sr).elim
        (protocolDecision (mkRequestHeaderProcess cfg sys sr).2.protocol sr.decision)
        fun row => connectionDecision (decidingText row)
          (protocolDecision (mkRequestHeaderProcess cfg sys sr).2.protocol sr.decision) := by
  have hline : ¬ LineRefused sys sr := by
    intro hrefused
    rw [hrefused.mkRequestHeaderProcess_fst cfg] at hret
    contradiction
  obtain ⟨sr', hfields, hkeep, hclose⟩ := mkRequestHeaderProcess_fields hline cfg
  have hbefore : sr'.decision = sr.decision := by rw [SessionRequest.decision, hkeep, hclose, SessionRequest.decision]
  have hprotocol : (mkRequestHeaderProcess cfg sys sr).2.protocol = sr'.protocol := by
    rw [hfields]
    exact mkRequestFieldsProcess_keeps (f := SessionRequest.protocol) (fun _ _ _ _ _ _ _ _ _ _ => rfl) _ _ _ _
  rw [hfields] at hret
  rw [hprotocol, hfields, mkRequestFieldsProcess_decision cfg (by rw [List.length_drop]; omega) hret, hbefore]
  rfl

/-- The decision is that of the bytes of the value, or of the protocol without a field. -/
def DecidedByValue (cfg : Config) (sys : Sys) (sr : SessionRequest) : Prop :=
  (mkRequestHeaderProcess cfg sys sr).2.decision =
    (connectionRow sys sr).elim
      (protocolDecision (mkRequestHeaderProcess cfg sys sr).2.protocol sr.decision)
      fun row => connectionDecision row.connectionValue
        (protocolDecision (mkRequestHeaderProcess cfg sys sr).2.protocol sr.decision)

/-- The field has no value, and what follows it decides otherwise than the protocol. -/
def DecidedBehind (cfg : Config) (sys : Sys) (sr : SessionRequest) : Prop :=
  ∃ row, connectionRow sys sr = some row ∧ row.connectionValue = [] ∧
    connectionDecision row.fromConnection
        (protocolDecision (mkRequestHeaderProcess cfg sys sr).2.protocol sr.decision) ≠
      protocolDecision (mkRequestHeaderProcess cfg sys sr).2.protocol sr.decision

theorem decidedByValue_iff (cfg : Config) (sys : Sys) {sr : SessionRequest}
    (hlen : (sr.body.data.getD []).length < 2 ^ 31) (hret : (mkRequestHeaderProcess cfg sys sr).1 = 0) :
    DecidedByValue cfg sys sr ↔ ¬ DecidedBehind cfg sys sr := by
  rw [DecidedByValue, mkRequestHeaderProcess_decision cfg sys hlen hret]
  cases hrow : connectionRow sys sr with
  | none => simp [DecidedBehind, hrow]
  | some row =>
      simp only [Option.elim_some, decidingText, DecidedBehind, hrow, Option.some.injEq, exists_eq_left']
      split
      · next hnil =>
          rw [and_iff_right hnil, not_not, hnil]
          rfl
      · next hvalue => simp [hvalue]

/-- **Bounded searches and keep-alive.**  A search is exact exactly when the needle does not
first lie across the end, and a request is decided by its `Connection` value exactly when it
is not one without a value and with a word behind it that changes the decision. -/
theorem search_n_exact_iff (mode : Sensitivity) (string : Bytes) {needle : Bytes} (len : Nat) (cfg : Config) (sys : Sys)
    {sr : SessionRequest} (hne : needle ≠ []) (h0 : 0 ∉ needle)
    (hbody : (sr.body.data.getD []).length < 2 ^ 31) (hret : (mkRequestHeaderProcess cfg sys sr).1 = 0) :
    (SearchExact mode string needle len (mkStringSearchBase string needle mode len) ↔
      ¬ CrossesEnd mode string needle len) ∧
    (DecidedByValue cfg sys sr ↔ ¬ DecidedBehind cfg sys sr) :=
  ⟨searchExact_iff hne h0 string len, decidedByValue_iff cfg sys hbody hret⟩

/-- A request with these header lines. -/
def connectionRequest (lines : String) : SessionRequest :=
  let head := ascii "GET / HTTP/1.1\r\n".toList ++ ascii lines.toList
  { body := ⟨some (head ++ (mkCrlf ++ mkCrlf)), head.length⟩ }

/-- A needle at the end of the bytes searched, and a value that closes the connection. -/
theorem search_n_exact_close :
    SearchExact .insensitive (ascii "xabc".toList) (ascii "AB".toList) 3
        (mkStringSearchBase (ascii "xabc".toList) (ascii "AB".toList) .insensitive 3) ∧
      DecidedByValue sampleConfig sampleSys (connectionRequest "Connection: close\r\nA: keep-alive") := by
  have hboth := @search_n_exact_iff .insensitive (ascii "xabc".toList) (ascii "AB".toList) 3 sampleConfig sampleSys
    (connectionRequest "Connection: close\r\nA: keep-alive") (by decide) (by decide) (by decide +kernel) (by decide +kernel)
  refine ⟨hboth.1.mpr ?_, hboth.2.mpr ?_⟩
  · rintro ⟨p, hleast, -, hend⟩
    have hp := hleast.2 (by decide : MatchesAt .insensitive (ascii "xabc".toList) (ascii "AB".toList) 1)
    rw [show (ascii "AB".toList).length = 2 from rfl] at hend
    omega
  · rintro ⟨row, hrow, hnil, -⟩
    rw [show connectionRow sampleSys (connectionRequest "Connection: close\r\nA: keep-alive") =
      some ⟨ascii "Connection: close\r\nA: keep-alive\r\n\r\n".toList, 17, false⟩ by decide +kernel] at hrow
    obtain rfl := Option.some.inj hrow
    exact absurd hnil (by decide +kernel)

/-- `mk_string_search_n("ab", "ab", …, 1)` is `0`, and a `Connection` field without a value
closes the connection for a word in the line behind it. -/
theorem not_search_n_exact :
    ¬ SearchExact .sensitive (ascii "ab".toList) (ascii "ab".toList) 1
        (mkStringSearchBase (ascii "ab".toList) (ascii "ab".toList) .sensitive 1) ∧
      ¬ DecidedByValue sampleConfig sampleSys (connectionRequest "Connection: \r\nA: close") := by
  refine ⟨?_, by unfold DecidedByValue; decide +kernel⟩
  rw [show mkStringSearchBase (ascii "ab".toList) (ascii "ab".toList) .sensitive 1 = 0 by decide]
  rintro (⟨p, -, hleast⟩ | ⟨hnone, -⟩)
  · have hfit : p + 2 ≤ 1 := hleast.1.2
    omega
  · contradiction

end Monkey
