import Monkey.Http.HeaderIov
import Monkey.Http.Itop
import Monkey.Http.Percent
import Monkey.Lib.Lines

/-!
# Monkey.Logger.Record

The record that the logger writes for a request (`_mkp_stage_40` of `logger.c`): one line of
the access log when the status is below 400, else an entry of the error log.

A line of the access log is one request.  The error log has no such lines: what a status
other than the nine of `endedStatuses` leaves is not ended, and the next entry is glued to it.

What is written is put together from the request as stage 40 finds it, the date of the clock and
the address of the peer, in a vector of fifteen entries.  What becomes of the record in the pipe
is in `Monkey.Logger.Pipes`.
-/

namespace Monkey.Logger

/-! ## the hook -/

/-- The fields of `struct log_target` that the hook reads; the host by its number. -/
structure LogTarget where
  host : Nat
  fileAccess : Option Bytes
  fileError : Option Bytes

/-- The fields of `struct session_request` that the hook reads. -/
structure LogRequest where
  hostConf : Nat
  status : Int
  method : Method
  methodP : Bytes
  uri : Bytes
  protocolP : Bytes
  contentLength : Int

/-- `mk_http_method_check_str`. -/
def mkHttpMethodCheckStr : Method → Bytes
  | .get => ascii "GET".toList
  | .post => ascii "POST".toList
  | .head => ascii "HEAD".toList
  | .put => ascii "PUT".toList
  | .delete => ascii "DELETE".toList
  | .unknown => []

/-- `mk_http_protocol_check_str`. -/
def mkHttpProtocolCheckStr : Protocol → Bytes
  | .http11 => ascii "HTTP/1.1".toList
  | .http10 => ascii "HTTP/1.0".toList
  | .http09 => ascii "HTTP/0.9".toList
  | .unset | .unknown => []

/-- What the hook reads of a request that has been through `mk_request_header_process`. -/
def logRequest (hostConf : Nat) (sr : SessionRequest) : LogRequest where
  hostConf := hostConf
  status := sr.headers.status
  method := sr.method
  methodP := mkHttpMethodCheckStr sr.method
  uri := sr.uri.text
  protocolP := mkHttpProtocolCheckStr sr.protocol
  contentLength := sr.headers.contentLength

/-- The `response_codes` of the logger. -/
def responseCodes : List (Int × Bytes) :=
  List.map (fun n : Nat => (Int.ofNat n, decimal n))
    [200, 404, 100, 101, 201, 202, 203, 204, 205, 206, 300, 301, 302, 303, 304, 305,
      400, 401, 402, 403, 405, 406, 407, 408, 409, 410, 411, 412, 413, 414, 415,
      500, 501, 502, 503, 504, 505]

def mkLoggerIovDash : Bytes := ascii " - ".toList
def mkLoggerIovSpace : Bytes := ascii " ".toList
def mkLoggerIovLf : Bytes := [0x0a]
def mkLoggerIovEmpty : Bytes := ascii "-".toList

def errorMsg400 : Bytes := ascii "[error 400] Bad Request".toList
def errorMsg403 : Bytes := ascii "[error 403] Forbidden".toList
def errorMsg404 : Bytes := ascii "[error 404] Not Found".toList
def errorMsg405 : Bytes := ascii "[error 405] Method Not Allowed".toList
def errorMsg408 : Bytes := ascii "[error 408] Request Timeout".toList
def errorMsg411 : Bytes := ascii "[error 411] Length Required".toList
def errorMsg413 : Bytes := ascii "[error 413] Request Entity Too Large".toList
def errorMsg500 : Bytes := ascii "[error 500] Internal Server Error".toList
def errorMsg501 : Bytes := ascii "[error 501] Not Implemented".toList
def errorMsg505 : Bytes := ascii "[error 505] HTTP Version Not Supported".toList

/-- The access log: `none` is a vector over its size, a number over its buffer, or a status
out of the table, whose text goes through the pointer `status`, which nothing has set. -/
def accessEntry (iov : MkIov) (cl : Bytes) (r : LogRequest) : Option MkIov := do
  let iov ← mkIovAddEntry iov r.methodP mkLoggerIovSpace
  let iov ← mkIovAddEntry iov r.uri mkLoggerIovSpace
  let iov ← mkIovAddEntry iov r.protocolP mkLoggerIovSpace
  let status ← (responseCodes.find? fun e => e.1 == r.status).map (·.2)
  let iov ← mkIovAddEntry iov status mkLoggerIovSpace
  if r.method ≠ .head then
    let tmp := toInt r.contentLength
    let tmp := if tmp < 0 then 0 else tmp
    let (data, len) ← mkStringItop tmp cl
    mkIovAddEntry iov (data.take (len - 2)) mkLoggerIovLf
  else mkIovAddEntry iov mkLoggerIovEmpty mkLoggerIovLf

/-- A message, then what it is about, and the end of the line. -/
def errorAbout (iov : MkIov) (msg what : Bytes) : Option MkIov := do
  let iov ← mkIovAddEntry iov msg mkLoggerIovSpace
  mkIovAddEntry iov what mkLoggerIovLf

/-- The error log, the `switch` over the status. -/
def errorEntry (iov : MkIov) (r : LogRequest) : Option MkIov :=
  if r.status = mkClientBadRequest then mkIovAddEntry iov errorMsg400 mkLoggerIovLf
  else if r.status = mkClientForbidden then errorAbout iov errorMsg403 r.uri
  else if r.status = mkClientNotFound then errorAbout iov errorMsg404 r.uri
  else if r.status = mkClientMethodNotAllowed then errorAbout iov errorMsg405 r.methodP
  else if r.status = mkClientRequestTimeout then mkIovAddEntry iov errorMsg408 mkLoggerIovLf
  else if r.status = mkClientLengthRequired then mkIovAddEntry iov errorMsg411 mkLoggerIovLf
  else if r.status = mkClientRequestEntityTooLarge then mkIovAddEntry iov errorMsg413 mkLoggerIovLf
  else if r.status = mkServerNotImplemented then errorAbout iov errorMsg501 r.methodP
  else if r.status = mkServerInternalError then mkIovAddEntry iov errorMsg500 mkLoggerIovSpace
  else if r.status = mkServerHttpVersionUnsup then mkIovAddEntry iov errorMsg505 mkLoggerIovLf
  else some iov

/-- `mk_logger_match_by_host`. -/
def mkLoggerMatchByHost (targets : List LogTarget) (host : Nat) : Option LogTarget :=
  targets.find? fun entry => entry.host == host

/-- The two pipes of a host. -/
inductive LogPipe
  | access (host : Nat)
  | error (host : Nat)
deriving DecidableEq, Repr

/-- A request at the hook, with what the hook asks for: the address of the peer (`none` when
the socket is gone), the date of the clock, the buffer `cache_content_length`. -/
structure Served where
  ip : Option Bytes
  date : Bytes
  cl : Bytes
  req : LogRequest

/-- The size of the vector of the thread. -/
def logIovSize : Nat := 15

/-- `_mkp_stage_40`: the pipe it writes to and the vector it sends there; `some none` is a
return without a word. -/
def mkpStage40 (targets : List LogTarget) (s : Served) : Option (Option (LogPipe × MkIov)) :=
  match mkLoggerMatchByHost targets s.req.hostConf with
  | none => some none
  | some target =>
      match s.ip with
      | none => some none
      | some ip => do
          let iov ← mkIovAddEntry ⟨[], logIovSize⟩ ip mkLoggerIovDash
          let iov ← mkIovAddEntry iov s.date mkLoggerIovSpace
          if s.req.status < 400 then
            if target.fileAccess = none then some none
            else do
              let iov ← accessEntry iov s.cl s.req
              some (some (.access target.host, iov))
          else if target.fileError = none then some none
          else do
            let iov ← errorEntry iov s.req
            some (some (.error target.host, iov))

/-- The record of a request that goes to a pipe. -/
def recordOf (targets : List LogTarget) (p : LogPipe) (s : Served) : Option Bytes :=
  match mkpStage40 targets s with
  | some (some (q, iov)) => if q = p then some iov.io.flatten else none
  | _ => none

/-- The records that go to a pipe, in the order of the requests. -/
def recordsOf (targets : List LogTarget) (p : LogPipe) (ss : List Served) : List Bytes :=
  ss.filterMap (recordOf targets p)

/-! ## what a line of the access log says -/

/-- What stands in front of both kinds of records. -/
def recordHead (ip date : Bytes) : Bytes := ip ++ mkLoggerIovDash ++ date ++ mkLoggerIovSpace

/-- The length of the body, or `-` for a HEAD. -/
def lengthText (r : LogRequest) : Bytes :=
  if r.method = .head then mkLoggerIovEmpty else decimal (toInt r.contentLength).toNat

/-- The line of a request in the access log. -/
def accessText (ip date : Bytes) (r : LogRequest) : Bytes :=
  recordHead ip date ++ r.methodP ++ mkLoggerIovSpace ++ r.uri ++ mkLoggerIovSpace ++ r.protocolP ++
    mkLoggerIovSpace ++ decimal r.status.toNat ++ mkLoggerIovSpace ++ lengthText r ++ mkLoggerIovLf

/-- The vector holds `n` entries with a text. -/
structure Filled (iov : MkIov) (n : Nat) (text : Bytes) : Prop where
  size : iov.size = logIovSize
  length : iov.io.length = n
  text : iov.io.flatten = text

theorem filled_nil : Filled ⟨[], logIovSize⟩ 0 [] := ⟨rfl, rfl, rfl⟩

/-- One more field and its separator. -/
theorem Filled.add {iov : MkIov} {n : Nat} {text : Bytes} (h : Filled iov n text) (buf sep : Bytes)
    (hsep : 0 < sep.length) (hn : n + 2 ≤ logIovSize) :
    ∃ iov', mkIovAddEntry iov buf sep = some iov' ∧ Filled iov' (n + 2) (text ++ buf ++ sep) := by
  obtain ⟨hsize, hlength, htext⟩ := h
  have hroom : (iov.io ++ [buf, sep]).length ≤ iov.size := by
    rw [List.length_append, hlength, hsize]
    exact hn
  refine ⟨{ iov with io := iov.io ++ [buf, sep] }, ?_, hsize, ?_, ?_⟩
  · unfold mkIovAddEntry
    simp only [if_pos hsep, if_pos hroom]
  · rw [List.length_append, hlength]
    rfl
  · rw [List.flatten_append, htext]
    simp

/-- The text of a status of the table. -/
theorem responseCodes_find (status : Int) :
    (responseCodes.find? fun e => e.1 == status).map (·.2) =
      if status ∈ responseCodes.map (·.1) then some (decimal status.toNat) else none := by
  have htable : ∀ e ∈ responseCodes, e.2 = decimal e.1.toNat := by
    intro e he
    obtain ⟨n, -, rfl⟩ := List.mem_map.mp he
    rfl
  split
  · next hmem =>
      obtain ⟨e, he, rfl⟩ := List.mem_map.mp hmem
      have hsome : (responseCodes.find? fun e' => e'.1 == e.1).isSome :=
        List.find?_isSome.mpr ⟨e, he, beq_self_eq_true e.1⟩
      obtain ⟨e', hfind⟩ := Option.isSome_iff_exists.mp hsome
      have hkey : e'.1 = e.1 := by simpa using List.find?_some hfind
      rw [hfind, Option.map_some, htable e' (List.mem_of_find?_eq_some hfind), hkey]
  · next hmem =>
      rw [List.find?_eq_none.mpr]
      · rfl
      · intro e he heq
        exact hmem (List.mem_map.mpr ⟨e, he, beq_iff_eq.mp heq⟩)

/-- The number in front of the CRLF of `mk_string_itop`. -/
theorem mkStringItop_take {n : Nat} (hn : n < 2 ^ 31) {cl : Bytes} (hcl : cl.length = mkUtilsInt2mkpBufferLen) :
    ∃ data len, mkStringItop n cl = some (data, len) ∧ data.take (len - 2) = decimal n := by
  have hdec : decimalInt n = decimal n := by
    rw [decimalInt, if_neg (by omega), Int.natAbs_natCast]
  obtain ⟨data, heq, htext⟩ := @mkStringItop_text n (by omega) (by exact_mod_cast hn) cl hcl.ge
  rw [hdec] at heq htext
  refine ⟨data, _, heq, ?_⟩
  have hfront := congrArg (List.take (decimal n).length) htext
  rwa [List.take_take, min_eq_left (Nat.le_add_right _ _), List.take_left] at hfront

/-- The line of a request whose status is in the table; no other has one. -/
theorem accessEntry_spec {iov : MkIov} {ip date : Bytes} (hiov : Filled iov 4 (recordHead ip date))
    (r : LogRequest) {cl : Bytes} (hcl : cl.length = mkUtilsInt2mkpBufferLen) :
    if r.status ∈ responseCodes.map (·.1) then
      ∃ iov', accessEntry iov cl r = some iov' ∧ iov'.io.flatten = accessText ip date r
    else accessEntry iov cl r = none := by
  obtain ⟨iov₁, h₁, hiov₁⟩ := hiov.add r.methodP mkLoggerIovSpace (by decide) (by decide)
  obtain ⟨iov₂, h₂, hiov₂⟩ := hiov₁.add r.uri mkLoggerIovSpace (by decide) (by decide)
  obtain ⟨iov₃, h₃, hiov₃⟩ := hiov₂.add r.protocolP mkLoggerIovSpace (by decide) (by decide)
  unfold accessEntry
  rw [responseCodes_find]
  simp only [h₁, h₂, h₃, Option.bind_eq_bind, Option.bind_some]
  split
  · obtain ⟨iov₄, h₄, hiov₄⟩ :=
      hiov₃.add (decimal r.status.toNat) mkLoggerIovSpace (by decide) (by decide)
    simp only [h₄, Option.bind_some]
    obtain ⟨iov₅, h₅, hiov₅⟩ := hiov₄.add (lengthText r) mkLoggerIovLf (by decide) (by decide)
    refine ⟨iov₅, ?_, ?_⟩
    · rw [← h₅, lengthText]
      by_cases hhead : r.method = .head
      · rw [if_neg (by simpa using hhead), if_pos hhead]
      · -- a negative length is logged as 0, which is also what `toNat` makes of it
        have hlow := toInt_lower r.contentLength
        have hhigh := toInt_upper r.contentLength
        have htmp : (if toInt r.contentLength < 0 then 0 else toInt r.contentLength) =
            ((toInt r.contentLength).toNat : Int) := by
          split <;> omega
        obtain ⟨data, len, hitop, htake⟩ := @mkStringItop_take (toInt r.contentLength).toNat (by omega) cl hcl
        rw [if_pos hhead, if_neg hhead, htmp, hitop]
        simp only [Option.bind_some, htake]
    · rw [hiov₅.text]
      rfl
  · rfl

/-! ## the entries of the error log -/

/-- The statuses whose entry of the error log is ended by a newline. -/
def endedStatuses : List Int :=
  [mkClientBadRequest, mkClientForbidden, mkClientNotFound, mkClientMethodNotAllowed, mkClientRequestTimeout,
    mkClientLengthRequired, mkClientRequestEntityTooLarge, mkServerNotImplemented, mkServerHttpVersionUnsup]

/-- No newline in a text. -/
abbrev OneLine (text : Bytes) : Prop := 0x0a ∉ text

/-- What an entry of the error log has behind the address and the date. -/
def Ends (status : Int) (body : Bytes) : Prop :=
  if status ∈ endedStatuses then ∃ line, OneLine line ∧ body = line ++ [0x0a] else OneLine body

theorem errorAbout_spec {iov : MkIov} {text : Bytes} (hiov : Filled iov 4 text) (msg what : Bytes) :
    ∃ iov', errorAbout iov msg what = some iov' ∧
      iov'.io.flatten = text ++ (msg ++ mkLoggerIovSpace ++ what ++ [0x0a]) := by
  obtain ⟨iov₁, h₁, hiov₁⟩ := hiov.add msg mkLoggerIovSpace (by decide) (by decide)
  obtain ⟨iov₂, h₂, hiov₂⟩ := hiov₁.add what mkLoggerIovLf (by decide) (by decide)
  refine ⟨iov₂, ?_, ?_⟩
  · simp only [errorAbout, h₁, Option.bind_eq_bind, Option.bind_some, h₂]
  · rw [hiov₂.text]
    simp [mkLoggerIovLf]

/-- The entry of the error log, for every status. -/
theorem errorEntry_spec {iov : MkIov} {text : Bytes} (hiov : Filled iov 4 text) {r : LogRequest}
    (hmethod : OneLine r.methodP) (huri : OneLine r.uri) :
    ∃ iov' body, errorEntry iov r = some iov' ∧ iov'.io.flatten = text ++ body ∧ Ends r.status body := by
  -- the two shapes of an entry that is ended
  have hplain : ∀ msg : Bytes, OneLine msg → r.status ∈ endedStatuses →
      ∃ iov' body, mkIovAddEntry iov msg mkLoggerIovLf = some iov' ∧ iov'.io.flatten = text ++ body ∧
        Ends r.status body := by
    intro msg hmsg hstatus
    obtain ⟨iov', h, hiov'⟩ := hiov.add msg mkLoggerIovLf (by decide) (by decide)
    refine ⟨iov', msg ++ [0x0a], h, ?_, ?_⟩
    · rw [hiov'.text, List.append_assoc]
      rfl
    · rw [Ends, if_pos hstatus]
      exact ⟨msg, hmsg, rfl⟩
  have habout : ∀ msg what : Bytes, OneLine msg → OneLine what → r.status ∈ endedStatuses →
      ∃ iov' body, errorAbout iov msg what = some iov' ∧ iov'.io.flatten = text ++ body ∧
        Ends r.status body := by
    intro msg what hmsg hwhat hstatus
    obtain ⟨iov', h, htext⟩ := errorAbout_spec hiov msg what
    refine ⟨iov', _, h, htext, ?_⟩
    rw [Ends, if_pos hstatus]
    refine ⟨_, ?_, rfl⟩
    have hspace : OneLine mkLoggerIovSpace := by decide
    simp only [OneLine, List.mem_append, not_or]
    exact ⟨⟨hmsg, hspace⟩, hwhat⟩
  have hended : ∀ status ∈ endedStatuses, r.status = status → r.status ∈ endedStatuses := by
    rintro status hmem rfl
    exact hmem
  unfold errorEntry
  by_cases h400 : r.status = mkClientBadRequest
  · rw [if_pos h400]
    exact hplain _ (by decide) (hended _ (by decide) h400)
  rw [if_neg h400]
  by_cases h403 : r.status = mkClientForbidden
  · rw [if_pos h403]
    exact habout _ _ (by decide) huri (hended _ (by decide) h403)
  rw [if_neg h403]
  by_cases h404 : r.status = mkClientNotFound
  · rw [if_pos h404]
    exact habout _ _ (by decide) huri (hended _ (by decide) h404)
  rw [if_neg h404]
  by_cases h405 : r.status = mkClientMethodNotAllowed
  · rw [if_pos h405]
    exact habout _ _ (by decide) hmethod (hended _ (by decide) h405)
  rw [if_neg h405]
  by_cases h408 : r.status = mkClientRequestTimeout
  · rw [if_pos h408]
    exact hplain _ (by decide) (hended _ (by decide) h408)
  rw [if_neg h408]
  by_cases h411 : r.status = mkClientLengthRequired
  · rw [if_pos h411]
    exact hplain _ (by decide) (hended _ (by decide) h411)
  rw [if_neg h411]
  by_cases h413 : r.status = mkClientRequestEntityTooLarge
  · rw [if_pos h413]
    exact hplain _ (by decide) (hended _ (by decide) h413)
  rw [if_neg h413]
  by_cases h501 : r.status = mkServerNotImplemented
  · rw [if_pos h501]
    exact habout _ _ (by decide) hmethod (hended _ (by decide) h501)
  rw [if_neg h501]
  by_cases h500 : r.status = mkServerInternalError
  · -- the entry of a 500 goes on in the next one
    rw [if_pos h500]
    obtain ⟨iov', h, hiov'⟩ := hiov.add errorMsg500 mkLoggerIovSpace (by decide) (by decide)
    refine ⟨iov', errorMsg500 ++ mkLoggerIovSpace, h, ?_, ?_⟩
    · rw [hiov'.text, List.append_assoc]
    · rw [Ends, h500, if_neg (by decide)]
      decide
  rw [if_neg h500]
  by_cases h505 : r.status = mkServerHttpVersionUnsup
  · rw [if_pos h505]
    exact hplain _ (by decide) (hended _ (by decide) h505)
  rw [if_neg h505]
  refine ⟨iov, [], rfl, ?_, ?_⟩
  · rw [hiov.text, List.append_nil]
  · have hother : r.status ∉ endedStatuses := by
      simp only [endedStatuses, List.mem_cons, List.not_mem_nil, or_false, not_or]
      exact ⟨h400, h403, h404, h405, h408, h411, h413, h501, h505⟩
    rw [Ends, if_neg hother]
    exact List.not_mem_nil

/-! ## the two logs -/

/-- The request is one for the error log of the host. -/
def ErrorLogged (targets : List LogTarget) (host : Nat) (s : Served) : Prop :=
  s.req.hostConf = host ∧ s.ip.isSome ∧ 400 ≤ s.req.status ∧
    ((mkLoggerMatchByHost targets host).bind fun t => t.fileError).isSome

/-- The request is one for the access log of the host. -/
def AccessLogged (targets : List LogTarget) (host : Nat) (s : Served) : Prop :=
  s.req.hostConf = host ∧ s.ip.isSome ∧ s.req.status < 400 ∧
    ((mkLoggerMatchByHost targets host).bind fun t => t.fileAccess).isSome

instance (targets : List LogTarget) (host : Nat) (s : Served) : Decidable (ErrorLogged targets host s) :=
  inferInstanceAs (Decidable (_ ∧ _))

instance (targets : List LogTarget) (host : Nat) (s : Served) : Decidable (AccessLogged targets host s) :=
  inferInstanceAs (Decidable (_ ∧ _))

/-- The request has a line in the access log of the host: its status is in the table. -/
def HasLine (targets : List LogTarget) (host : Nat) (s : Served) : Prop :=
  AccessLogged targets host s ∧ s.req.status ∈ responseCodes.map (·.1)

instance (targets : List LogTarget) (host : Nat) (s : Served) : Decidable (HasLine targets host s) :=
  inferInstanceAs (Decidable (_ ∧ _))

/-- The texts of a request at the hook are of one line, and the buffer of the length has its
size. -/
structure Served.Plain (s : Served) : Prop where
  ip : ∀ ip ∈ s.ip, OneLine ip
  date : OneLine s.date
  method : OneLine s.req.methodP
  uri : OneLine s.req.uri
  protocol : OneLine s.req.protocolP
  cl : s.cl.length = mkUtilsInt2mkpBufferLen

/-- What the hook does with a request. -/
inductive HookResult (targets : List LogTarget) (s : Served) : Option (Option (LogPipe × MkIov)) → Prop
  | quiet (haccess : ∀ host, ¬ AccessLogged targets host s) (herror : ∀ host, ¬ ErrorLogged targets host s) :
      HookResult targets s (some none)
  | wild (haccess : AccessLogged targets s.req.hostConf s) (hstatus : s.req.status ∉ responseCodes.map (·.1)) :
      HookResult targets s none
  | access {ip : Bytes} {iov : MkIov} (haccess : AccessLogged targets s.req.hostConf s)
      (hstatus : s.req.status ∈ responseCodes.map (·.1)) (hip : s.ip = some ip)
      (htext : iov.io.flatten = accessText ip s.date s.req) :
      HookResult targets s (some (some (.access s.req.hostConf, iov)))
  | error {ip body : Bytes} {iov : MkIov} (herror : ErrorLogged targets s.req.hostConf s) (hip : s.ip = some ip)
      (htext : iov.io.flatten = recordHead ip s.date ++ body) (hends : Ends s.req.status body) :
      HookResult targets s (some (some (.error s.req.hostConf, iov)))

section

variable {targets : List LogTarget} {host : Nat} {s : Served}

/-- **The hook**: the vector always has room. -/
theorem mkpStage40_spec (targets : List LogTarget) (hs : s.Plain) :
    HookResult targets s (mkpStage40 targets s) := by
  unfold mkpStage40
  cases htarget : mkLoggerMatchByHost targets s.req.hostConf with
  | none =>
      have hnone : ∀ f : LogTarget → Option Bytes, ∀ host, s.req.hostConf = host →
          ¬ ((mkLoggerMatchByHost targets host).bind f).isSome := by
        rintro f host rfl h
        rw [htarget] at h
        contradiction
      exact .quiet (fun host h => hnone _ host h.1 h.2.2.2) fun host h => hnone _ host h.1 h.2.2.2
  | some t =>
      have hhost : t.host = s.req.hostConf := by simpa using List.find?_some htarget
      cases hip : s.ip with
      | none => exact .quiet (fun host h => by simpa [hip] using h.2.1) fun host h => by simpa [hip] using h.2.1
      | some ip =>
          obtain ⟨iov₁, h₁, hiov₁⟩ := filled_nil.add ip mkLoggerIovDash (by decide) (by decide)
          obtain ⟨iov₂, h₂, hiov₂⟩ := hiov₁.add s.date mkLoggerIovSpace (by decide) (by decide)
          have hsome : s.ip.isSome := by rw [hip]; rfl
          simp only [h₁, h₂, hhost, Option.bind_eq_bind, Option.bind_some]
          by_cases hlow : s.req.status < 400
          · rw [if_pos hlow]
            have herror : ∀ host, ¬ ErrorLogged targets host s := fun host h => absurd h.2.2.1 (by omega)
            by_cases hfile : t.fileAccess = none
            · rw [if_pos hfile]
              refine .quiet (fun host h => ?_) herror
              obtain ⟨rfl, -, -, hopen⟩ := h
              rw [htarget, Option.bind_some, hfile] at hopen
              contradiction
            · rw [if_neg hfile]
              have haccess : AccessLogged targets s.req.hostConf s := by
                refine ⟨rfl, hsome, hlow, ?_⟩
                rw [htarget]
                exact Option.isSome_iff_ne_none.mpr hfile
              have hentry := accessEntry_spec hiov₂ s.req hs.cl
              by_cases hstatus : s.req.status ∈ responseCodes.map (·.1)
              · rw [if_pos hstatus] at hentry
                obtain ⟨iov, h, htext⟩ := hentry
                rw [h]
                exact .access haccess hstatus hip htext
              · rw [if_neg hstatus] at hentry
                rw [hentry]
                exact .wild haccess hstatus
          · rw [if_neg hlow]
            have haccess : ∀ host, ¬ AccessLogged targets host s := fun host h => absurd h.2.2.1 hlow
            by_cases hfile : t.fileError = none
            · rw [if_pos hfile]
              refine .quiet haccess fun host h => ?_
              obtain ⟨rfl, -, -, hopen⟩ := h
              rw [htarget, Option.bind_some, hfile] at hopen
              contradiction
            · rw [if_neg hfile]
              have herror : ErrorLogged targets s.req.hostConf s := by
                refine ⟨rfl, hsome, not_lt.mp hlow, ?_⟩
                rw [htarget]
                exact Option.isSome_iff_ne_none.mpr hfile
              obtain ⟨iov, body, h, htext, hends⟩ := errorEntry_spec hiov₂ hs.method hs.uri
              rw [h]
              exact .error herror hip htext hends

/-- The record of a request in an access log is its line. -/
theorem recordOf_access (targets : List LogTarget) (host : Nat) (hs : s.Plain) :
    (HasLine targets host s ∧
      ∃ ip, s.ip = some ip ∧ recordOf targets (.access host) s = some (accessText ip s.date s.req)) ∨
    (¬ HasLine targets host s ∧ recordOf targets (.access host) s = none) := by
  unfold recordOf
  have hspec := mkpStage40_spec targets hs
  generalize mkpStage40 targets s = result at hspec
  cases hspec with
  | quiet haccess herror => exact .inr ⟨fun h => haccess host h.1, rfl⟩
  | wild haccess hstatus => exact .inr ⟨fun h => hstatus h.2, rfl⟩
  | access haccess hstatus hip htext =>
      by_cases hhost : s.req.hostConf = host
      · subst hhost
        refine .inl ⟨⟨haccess, hstatus⟩, _, hip, ?_⟩
        simp only [if_true, htext]
      · refine .inr ⟨fun h => hhost h.1.1, ?_⟩
        simp only [LogPipe.access.injEq, if_neg hhost]
  | error herror hip htext hends =>
      refine .inr ⟨fun h => absurd herror.2.2.1 (not_le.mpr h.1.2.2.1), ?_⟩
      simp only [reduceCtorEq, if_false]

/-- The record of a request in an error log. -/
theorem recordOf_error (targets : List LogTarget) (host : Nat) (hs : s.Plain) :
    (ErrorLogged targets host s ∧ ∃ ip body, s.ip = some ip ∧ Ends s.req.status body ∧
      recordOf targets (.error host) s = some (recordHead ip s.date ++ body)) ∨
    (¬ ErrorLogged targets host s ∧ recordOf targets (.error host) s = none) := by
  unfold recordOf
  have hspec := mkpStage40_spec targets hs
  generalize mkpStage40 targets s = result at hspec
  cases hspec with
  | quiet haccess herror => exact .inr ⟨herror host, rfl⟩
  | wild haccess hstatus => exact .inr ⟨fun h => absurd h.2.2.1 (not_le.mpr haccess.2.2.1), rfl⟩
  | access haccess hstatus hip htext =>
      refine .inr ⟨fun h => absurd h.2.2.1 (not_le.mpr haccess.2.2.1), ?_⟩
      simp only [reduceCtorEq, if_false]
  | error herror hip htext hends =>
      by_cases hhost : s.req.hostConf = host
      · subst hhost
        refine .inl ⟨herror, _, _, hip, hends, ?_⟩
        simp only [if_true, htext]
      · refine .inr ⟨fun h => hhost h.1, ?_⟩
        simp only [LogPipe.error.injEq, if_neg hhost]

/-- The line of the access log is one line. -/
theorem accessText_line (hs : s.Plain) {ip : Bytes} (hip : s.ip = some ip) :
    IsPiece 0x0a (accessText ip s.date s.req) ∧ 0x0a ∈ accessText ip s.date s.req := by
  have hdecimal : ∀ n, OneLine (decimal n) := fun n hmem => absurd (isdigit_of_mem_decimal _ hmem) (by decide)
  have hlength : OneLine (lengthText s.req) := by
    unfold lengthText
    split
    · decide
    · exact hdecimal _
  have hdash : OneLine mkLoggerIovDash := by decide
  have hspace : OneLine mkLoggerIovSpace := by decide
  have hip' := hs.ip ip hip
  have hdate := hs.date
  have hmethod := hs.method
  have huri := hs.uri
  have hprotocol := hs.protocol
  have hstatus := hdecimal s.req.status.toNat
  constructor
  · apply isPiece_line
    simp only [recordHead, List.mem_append, not_or]
    tauto
  · simp [accessText, mkLoggerIovLf]

/-- The entry of the error log is a record, ended for nine statuses. -/
theorem errorText_piece (hs : s.Plain) {ip body : Bytes} (hip : s.ip = some ip) (hends : Ends s.req.status body) :
    IsPiece 0x0a (recordHead ip s.date ++ body) ∧
      (0x0a ∈ recordHead ip s.date ++ body ↔ s.req.status ∈ endedStatuses) := by
  have hhead : OneLine (recordHead ip s.date) := by
    have hdash : OneLine mkLoggerIovDash := by decide
    have hspace : OneLine mkLoggerIovSpace := by decide
    have hip' := hs.ip ip hip
    have hdate := hs.date
    simp only [recordHead, OneLine, List.mem_append, not_or]
    tauto
  unfold Ends at hends
  split at hends
  · next hstatus =>
      obtain ⟨line, hline, rfl⟩ := hends
      rw [← List.append_assoc]
      refine ⟨isPiece_line ?_, iff_of_true (by simp) hstatus⟩
      rw [List.mem_append, not_or]
      exact ⟨hhead, hline⟩
  · next hstatus =>
      have hall : OneLine (recordHead ip s.date ++ body) := by
        rw [OneLine, List.mem_append, not_or]
        exact ⟨hhead, hends⟩
      refine ⟨isPiece_unended ?_ hall, iff_of_false hall hstatus⟩
      simp [recordHead, mkLoggerIovDash, ascii]

/-- **When the hook goes wrong**: on a status below 400 that is not in the table. -/
theorem mkpStage40_eq_none_iff (hs : s.Plain) :
    mkpStage40 targets s = none ↔
      AccessLogged targets s.req.hostConf s ∧ s.req.status ∉ responseCodes.map (·.1) := by
  have hspec := mkpStage40_spec targets hs
  generalize mkpStage40 targets s = result at hspec
  cases hspec with
  | quiet haccess herror => exact iff_of_false (by simp) fun h => haccess _ h.1
  | wild haccess hstatus => exact iff_of_true rfl ⟨haccess, hstatus⟩
  | access haccess hstatus hip htext => exact iff_of_false (by simp) fun h => h.2 hstatus
  | error herror hip htext hends =>
      exact iff_of_false (by simp) fun h => absurd herror.2.2.1 (not_le.mpr h.1.2.2.1)

end

/-- The line of a request in the access log. -/
def Served.line (s : Served) : Bytes := accessText (s.ip.getD []) s.date s.req

section

variable (targets : List LogTarget) (host : Nat) {ss : List Served}

/-- The records of an access log are the lines of its requests. -/
theorem recordsOf_access (hss : ∀ s ∈ ss, s.Plain) :
    recordsOf targets (.access host) ss =
      (ss.filter fun s => decide (HasLine targets host s)).map Served.line := by
  induction ss with
  | nil => rfl
  | cons s ss ih =>
      have hrest := ih fun s hs => hss s (List.mem_cons_of_mem _ hs)
      unfold recordsOf at hrest ⊢
      rcases recordOf_access targets host (hss s (List.mem_cons_self ..)) with
        ⟨hlogged, ip, hip, heq⟩ | ⟨hnot, heq⟩
      · rw [List.filterMap_cons_some heq, hrest, List.filter_cons_of_pos (by simpa using hlogged),
          List.map_cons, Served.line, hip, Option.getD_some]
      · rw [List.filterMap_cons_none heq, hrest, List.filter_cons_of_neg (by simpa using hnot)]

/-- The records of an error log, one for each of its requests. -/
theorem recordsOf_error (hss : ∀ s ∈ ss, s.Plain) :
    ∃ record : Served → Bytes,
      recordsOf targets (.error host) ss =
        (ss.filter fun s => decide (ErrorLogged targets host s)).map record ∧
      ∀ s ∈ ss, ErrorLogged targets host s →
        IsPiece 0x0a (record s) ∧ (0x0a ∈ record s ↔ s.req.status ∈ endedStatuses) := by
  refine ⟨fun s => (recordOf targets (.error host) s).getD [], ?_, ?_⟩
  · induction ss with
    | nil => rfl
    | cons s ss ih =>
        have hrest := ih fun s hs => hss s (List.mem_cons_of_mem _ hs)
        unfold recordsOf at hrest ⊢
        rcases recordOf_error targets host (hss s (List.mem_cons_self ..)) with
          ⟨hlogged, ip, body, hip, hends, heq⟩ | ⟨hnot, heq⟩
        · rw [List.filterMap_cons_some heq, hrest, List.filter_cons_of_pos (by simpa using hlogged),
            List.map_cons, heq, Option.getD_some]
        · rw [List.filterMap_cons_none heq, hrest, List.filter_cons_of_neg (by simpa using hnot)]
  · intro s hs hlogged
    rcases recordOf_error targets host (hss s hs) with
      ⟨-, ip, body, hip, hends, heq⟩ | ⟨hnot, -⟩
    · simp only [heq, Option.getD_some]
      exact errorText_piece (hss s hs) hip hends
    · exact absurd hlogged hnot

/-- **The two logs of a host**, cut at the newlines: the access log is a line for each of its
requests; the error log is cut into its entries exactly when every one but the last is for one
of the nine statuses. -/
theorem cutAfter_recordsOf (hss : ∀ s ∈ ss, s.Plain) :
    cutAfter 0x0a (recordsOf targets (.access host) ss).flatten =
        (ss.filter fun s => decide (HasLine targets host s)).map Served.line ∧
      (cutAfter 0x0a (recordsOf targets (.error host) ss).flatten = recordsOf targets (.error host) ss ↔
        ∀ s ∈ (ss.filter fun s => decide (ErrorLogged targets host s)).dropLast, s.req.status ∈ endedStatuses) ∧
      ∀ s ∈ ss, (mkpStage40 targets s = none ↔
        AccessLogged targets s.req.hostConf s ∧ s.req.status ∉ responseCodes.map (·.1)) := by
  refine ⟨?_, ?_, fun s hs => mkpStage40_eq_none_iff (hss s hs)⟩
  · rw [recordsOf_access targets host hss]
    have hlines : ∀ r ∈ (ss.filter fun s => decide (HasLine targets host s)).map Served.line,
        IsPiece 0x0a r ∧ 0x0a ∈ r := by
      intro r hr
      obtain ⟨s, hmem, rfl⟩ := List.mem_map.mp hr
      obtain ⟨hs, hlogged⟩ := List.mem_filter.mp hmem
      obtain ⟨ip, hip⟩ := Option.isSome_iff_exists.mp (of_decide_eq_true hlogged).1.2.1
      rw [Served.line, hip, Option.getD_some]
      exact accessText_line (hss s hs) hip
    have hcut := cutAfter_lines hlines []
    rwa [List.append_nil, cutAfter, List.append_nil] at hcut
  · obtain ⟨record, hrecords, hpiece⟩ := recordsOf_error targets host hss
    have hfiltered : ∀ s ∈ ss.filter fun s => decide (ErrorLogged targets host s),
        IsPiece 0x0a (record s) ∧ (0x0a ∈ record s ↔ s.req.status ∈ endedStatuses) := by
      intro s hmem
      obtain ⟨hs, hlogged⟩ := List.mem_filter.mp hmem
      exact hpiece s hs (of_decide_eq_true hlogged)
    rw [hrecords, cutAfter_flatten_iff, ← List.map_dropLast, List.forall_mem_map]
    · apply forall₂_congr
      intro s hmem
      exact (hfiltered s (List.mem_of_mem_dropLast hmem)).2
    · rw [List.forall_mem_map]
      exact fun s hmem => (hfiltered s hmem).1

end

/-- A request for `/` at the hook. -/
def served (status : Int) : Served where
  ip := some (ascii "::1".toList)
  date := ascii "[now]".toList
  cl := List.replicate mkUtilsInt2mkpBufferLen 0
  req := ⟨0, status, .get, ascii "GET".toList, ascii "/".toList, ascii "HTTP/1.1".toList, 0⟩

theorem served_plain (status : Int) : (served status).Plain where
  ip := by
    rintro _ ⟨⟩
    decide
  date := by
    show OneLine (ascii "[now]".toList)
    decide
  method := by
    show OneLine (ascii "GET".toList)
    decide
  uri := by
    show OneLine (ascii "/".toList)
    decide
  protocol := by
    show OneLine (ascii "HTTP/1.1".toList)
    decide
  cl := List.length_replicate ..

/-- A request refused for want of a password: its entry goes on in the next one. -/
theorem cutAfter_recordsOf_refused :
    cutAfter 0x0a (recordsOf [⟨0, some [], some []⟩] (.error 0) [served 401, served 404]).flatten ≠
      recordsOf [⟨0, some [], some []⟩] (.error 0) [served 401, served 404] := by
  have hplain : ∀ s ∈ [served 401, served 404], s.Plain := by
    simp [served_plain]
  rw [Ne, (cutAfter_recordsOf [⟨0, some [], some []⟩] 0 hplain).2.1]
  decide

/-! ## the URI of a request -/

/-- A range in front of the first newline has none. -/
theorem mkPointerCreate_oneLine {buf : Bytes} {init stop : Int} {k : Nat} (hk : strchr buf 0x0a = some k)
    (hinit : 0 ≤ init) (hlt : init < stop) (hstop : stop ≤ k) : OneLine (mkPointerCreate buf init stop).text := by
  have hlen : (mkPointerCreate buf init stop).len ≤ (stop - init).toNat := by
    simp only [mkPointerCreate, if_pos hlt.ne]
    unfold toULong
    omega
  intro hmem
  have hrange : (0x0a : UInt8) ∈ (buf.drop init.toNat).take (stop - init).toNat :=
    (List.take_subset_take_left _ hlen) hmem
  obtain ⟨i, hi⟩ := List.mem_iff_getElem?.mp hrange
  rw [List.getElem?_take] at hi
  split at hi
  · next hlow =>
      rw [List.getElem?_drop] at hi
      have hfirst := strchr_le hk hi
      omega
  · contradiction

/-- **The URI of a request** whose first line is accepted is of one line, unless the line is
empty. -/
theorem mkRequestHeaderProcess_oneLine {cfg : Config} {sys : Sys} {sr : SessionRequest} {k : Nat}
    (h : ¬ (mkRequestHeaderProcess cfg sys sr).1 < 0) (hk : strchr (sr.body.data.getD []) 0x0a = some k)
    (hpos : 0 < k) : OneLine (mkRequestHeaderProcess cfg sys sr).2.uri.text := by
  unfold mkRequestHeaderProcess at h ⊢
  simp only at h ⊢
  generalize sr.body.data.getD [] = body at h hk ⊢
  have hnewline : indexOf sys body 0x0a = k := by rw [indexOf, hk]; rfl
  rw [hnewline] at h ⊢
  generalize hlast : mkStringCharSearchR body 0x20 k = last at h ⊢
  by_cases hend : last - 1 ≤ 0
  · exact absurd (by rw [if_pos hend]; exact (by decide : (-1 : Int) < 0)) h
  by_cases hinit : last - 1 < indexOf sys body 0x20 + 1
  · exact absurd (by rw [if_neg hend, if_pos hinit]; exact (by decide : (-1 : Int) < 0)) h
  rw [if_neg hend, if_neg hinit] at h ⊢
  -- the last blank is searched for in front of the newline
  have hlt : last < k := by
    unfold mkStringCharSearchR position at hlast
    rw [if_neg (by omega), Int.toNat_natCast] at hlast
    cases hfound : memrchr body 0x20 k with
    | none =>
        rw [hfound, Option.elim_none] at hlast
        omega
    | some q =>
        rw [hfound, Option.elim_some, Int.ofNat_eq_natCast] at hlast
        have := (memrchr_spec hfound).1
        omega
  have hblank : 0 ≤ indexOf sys body 0x20 + 1 := by
    obtain ⟨-, hsome⟩ := @lastBlank_lt sys body (by rw [hk]; rfl) (by rw [hnewline, hlast]; omega)
    obtain ⟨b, hb⟩ := Option.isSome_iff_exists.mp hsome
    rw [indexOf, hb, Option.map_some, Option.getD_some, Int.ofNat_eq_natCast]
    omega
  obtain ⟨stop, hstart, hstop, huri⟩ := mkRequestUriProcess_uri (last - 1 + 2) sr (not_lt.mp hinit)
  have hline := mkPointerCreate_oneLine hk hblank hstart (by omega : stop ≤ k)
  rw [← huri] at hline
  generalize mkRequestUriProcess body (indexOf sys body 0x20 + 1) (last - 1) (last - 1 + 2) sr = sr'
    at h hline ⊢
  by_cases hlen : sr'.uri.len < 1
  · exact absurd (by rw [if_pos hlen]; exact (by decide : (-1 : Int) < 0)) h
  by_cases hprot : last - 1 + 2 = (k : Int) - 1
  · exact absurd (by rw [if_neg hlen, if_pos hprot]; exact (by decide : (-1 : Int) < 0)) h
  rw [if_neg hlen, if_neg hprot,
    mkRequestFieldsProcess_keeps (f := SessionRequest.uri) (fun _ _ _ _ _ _ _ _ _ _ => rfl)]
  have hdecode : ∀ sr : SessionRequest, (mkRequestUriDecode sr).uri = sr.uri := by
    intro sr
    unfold mkRequestUriDecode
    rfl
  rw [hdecode]
  split
  · exact hline
  · exact hline

/-- A request whose first line is accepted has texts of one line. -/
theorem plain_logRequest {cfg : Config} {sys : Sys} {sr sr' : SessionRequest} {k : Nat}
    (h : ¬ (mkRequestHeaderProcess cfg sys sr).1 < 0) (hk : strchr (sr.body.data.getD []) 0x0a = some k)
    (hpos : 0 < k) (huri : sr'.uri = (mkRequestHeaderProcess cfg sys sr).2.uri) {ip date cl : Bytes}
    (hip : OneLine ip) (hdate : OneLine date) (hcl : cl.length = mkUtilsInt2mkpBufferLen) (host : Nat) :
    (Served.mk (some ip) date cl (logRequest host sr')).Plain where
  ip := by
    rintro _ ⟨⟩
    exact hip
  date := hdate
  method := by
    show OneLine (mkHttpMethodCheckStr sr'.method)
    cases sr'.method <;> decide
  uri := by
    show OneLine sr'.uri.text
    rw [huri]
    exact mkRequestHeaderProcess_oneLine h hk hpos
  protocol := by
    show OneLine (mkHttpProtocolCheckStr sr'.protocol)
    cases sr'.protocol <;> decide
  cl := hcl

end Monkey.Logger
