import Monkey.Lib.Run

/-!
# Monkey.Liana.SslRead

`liana_ssl_handle_read`: plaintext out of decrypted records.  A record that does not
fit is kept in `buf_ssl` up to `buf_used`, and the next read starts with what is left
of it.

The TLS library is not modelled: every call of `liana_ssl_handle_socket_read` comes
with what the library and the socket answered (`SocketCall`).  The library shows one
record after the other and forgets a record when it shows the next, so the records of
a connection are the payloads its answers carry, in order.
-/

namespace Monkey

/-! ## the library -/

/-- What `matrixSslReceivedData` and `matrixSslProcessedData` return: a `PS_` error,
`PS_SUCCESS`, or a `MATRIXSSL_` code, with the plaintext it shows. -/
inductive MatrixRet
  | failure | argFail | memFail | protocolFail
  | success
  | requestSend | requestRecv | handshakeComplete
  | alert (b0 b1 : UInt8)
  | appData (payload : List UInt8)
  | unknown (negative : Bool)
deriving DecidableEq, Repr

/-- The buffer the library points `buf_ssl` to; its length is the new `buf_len`. -/
def MatrixRet.plain : MatrixRet → List UInt8
  | .alert b0 b1 => [b0, b1]
  | .appData payload => payload
  | _ => []

/-- The payload of the record shown, if one is. -/
def MatrixRet.payload : MatrixRet → List UInt8
  | .appData payload => payload
  | _ => []

def MatrixRet.negative : MatrixRet → Bool
  | .failure | .argFail | .memFail | .protocolFail => true
  | .unknown negative => negative
  | _ => false

/-- `SSL_ALERT_LEVEL_FATAL`. -/
def sslAlertLevelFatal : UInt8 := 2

/-- `SSL_ALERT_CLOSE_NOTIFY`. -/
def sslAlertCloseNotify : UInt8 := 0

/-- What one call of `liana_ssl_handle_socket_read` meets after the false start;
`again` is an `errno` of `EAGAIN` or `EWOULDBLOCK`. -/
inductive SocketEvent
  /-- `matrixSslGetReadbuf` gives no space. -/
  | noBuffer (argFail : Bool)
  /-- `read` gives no bytes for the buffer. -/
  | noBytes (space : Nat) (again : Bool)
  /-- `read` gives bytes and `matrixSslReceivedData` takes them; `falseStart` is the
  flag of the session. -/
  | received (falseStart : Bool) (ret : MatrixRet) (again : Bool)
  /-- `matrixSslProcessedData`. -/
  | processed (ret : MatrixRet) (again : Bool)
deriving DecidableEq, Repr

/-- One call: the answer to a false start, if one is tried, the event, and whether the
write that `MATRIXSSL_REQUEST_SEND` asks for completes the handshake. -/
structure SocketCall where
  falseStart : Option MatrixRet := none
  event : SocketEvent
  handshake : Bool := false
deriving DecidableEq, Repr

def SocketEvent.ret : SocketEvent → MatrixRet
  | .noBuffer argFail => if argFail then .argFail else .memFail
  | .noBytes _ _ => .failure
  | .received _ ret _ | .processed ret _ => ret

def SocketEvent.again : SocketEvent → Bool
  | .noBuffer _ => false
  | .noBytes _ again | .received _ _ again | .processed _ again => again

/-! ## the connection -/

/-- `struct mk_liana_ssl`, with the payloads shown so far and the bytes handed to the
callers, two records that the source does not keep.  `bufSsl` has the bytes that the library
showed last, which in the source is a pointer into memory of the library.  What it does with
records is not modelled; its answers are the events. -/
structure LianaSsl where
  bufSsl : List UInt8 := []
  bufLen : Nat := 0
  bufUsed : Nat := 0
  handshakeComplete : Bool := false
  needRead : Bool := true
  tryFalseStart : Bool := false
  presented : List UInt8 := []
  returned : List UInt8 := []
deriving DecidableEq, Repr

/-- `liana_ssl_new_connection`. -/
def lianaSslNewConnection : LianaSsl := {}

/-- What is left of the record shown last. -/
def LianaSsl.leftover (conn : LianaSsl) : List UInt8 :=
  (conn.bufSsl.take conn.bufLen).drop conn.bufUsed

/-- The library shows a buffer. -/
def LianaSsl.present (conn : LianaSsl) (ret : MatrixRet) : LianaSsl :=
  { conn with
    bufSsl := ret.plain
    bufLen := ret.plain.length
    presented := conn.presented ++ ret.payload }

/-- `liana_ssl_handle_remain`: the bytes copied, and the connection after it. -/
def lianaSslHandleRemain (conn : LianaSsl) (count : Nat) : List UInt8 × LianaSsl :=
  let remain := min (conn.bufLen - conn.bufUsed) count
  if count = 0 ∨ conn.bufLen ≤ conn.bufUsed ∨ remain = 0 then ([], conn)
  else (conn.leftover.take remain, { conn with bufUsed := conn.bufUsed + remain })

/-- The false start of `liana_ssl_handle_socket_read`: the library is asked for what
it already holds.  `none` when the answer does not belong here. -/
def LianaSsl.falseStart (conn : LianaSsl) : Option MatrixRet → Option LianaSsl
  | none => if conn.tryFalseStart = true then none else some conn
  | some ret =>
      if conn.tryFalseStart = false then none
      else
        some { conn.present ret with
          needRead := if ret.negative = true then conn.needRead else decide (ret = .success)
          tryFalseStart := false }

/-- Its main part, which reads the socket or goes on with what was read. -/
def LianaSsl.ask (conn : LianaSsl) (event : SocketEvent) : Option (MatrixRet × LianaSsl) :=
  match event with
  | .noBuffer _ => if conn.needRead = true then some (event.ret, conn) else none
  | .noBytes space _ =>
      -- the buffer for raw data counts as used up
      if conn.needRead = true then
        some (event.ret, { conn with bufSsl := [], bufLen := space, bufUsed := space })
      else none
  | .received falseStart ret _ =>
      if conn.needRead = true then
        some (ret, { conn.present ret with
          tryFalseStart := conn.tryFalseStart || (falseStart && !conn.handshakeComplete)
          bufUsed := 0
          needRead := false })
      else none
  | .processed ret _ =>
      if conn.needRead = false then some (ret, { conn.present ret with bufUsed := 0 }) else none

/-- `liana_ssl_handle_socket_read`. -/
def lianaSslHandleSocketRead (conn : LianaSsl) (call : SocketCall) : Option (MatrixRet × LianaSsl) :=
  (conn.falseStart call.falseStart).bind (·.ask call.event)

/-- `liana_ssl_handle_alert`. -/
def lianaSslHandleAlert (b0 : UInt8) : Int :=
  if b0 = sslAlertLevelFatal ∨ b0 = sslAlertCloseNotify then -1 else 0

/-- How one turn of the loop ends. -/
inductive Turn
  | fail
  | endRead
  | next (copied : List UInt8)

/-- The `switch` of `liana_ssl_handle_read` after a call; `buf` tells whether there is
a buffer to fill. -/
def lianaSslTurn (buf : Bool) (count : Nat) (copied : List UInt8) (call : SocketCall)
    (ret : MatrixRet) (conn : LianaSsl) : Turn × LianaSsl :=
  match ret with
  | .failure => (if call.event.again = true ∧ copied ≠ [] then .endRead else .fail, conn)
  | .memFail | .argFail | .protocolFail | .unknown _ => (.fail, conn)
  | .success => (.endRead, { conn with needRead := true, bufUsed := conn.bufLen })
  | .requestRecv => (.next copied, { conn with needRead := true })
  | .requestSend =>
      (.next copied, { conn with handshakeComplete := conn.handshakeComplete || call.handshake })
  | .handshakeComplete => (.next copied, { conn with handshakeComplete := true })
  | .alert b0 _ =>
      (if lianaSslHandleAlert b0 = -1 then .fail else .next copied,
        { conn with bufUsed := conn.bufUsed + 2 })
  | .appData _ =>
      let conn := { conn with handshakeComplete := true }
      if buf = false then (.endRead, conn)
      else
        let remain := min (count - copied.length) conn.bufLen
        (.next (copied ++ conn.bufSsl.take remain), { conn with bufUsed := conn.bufUsed + remain })

/-- The loop of `liana_ssl_handle_read`: the bytes handed over (`none` is `-1`).  It
has to come to its end with the last call. -/
def lianaSslReadLoop (buf : Bool) (count : Nat) :
    LianaSsl → List UInt8 → List SocketCall → Option (Option (List UInt8) × LianaSsl)
  | _, _, [] => none
  | conn, copied, call :: calls => do
      let (ret, conn) ← lianaSslHandleSocketRead conn call
      match lianaSslTurn buf count copied call ret conn with
      | (.fail, conn) => if calls = [] then some (none, conn) else none
      | (.endRead, conn) => if calls = [] then some (some copied, conn) else none
      | (.next copied, conn) =>
          if count > copied.length ∨ buf = false then lianaSslReadLoop buf count conn copied calls
          else if calls = [] then some (some copied, conn) else none

/-- A read of `count` bytes, or the one without a buffer that drives the handshake. -/
inductive SslRead
  | handshake (calls : List SocketCall)
  | read (count : Nat) (calls : List SocketCall)
deriving DecidableEq, Repr

def SslRead.count : SslRead → Nat
  | .handshake _ => 0
  | .read count _ => count

def SslRead.buf : SslRead → Bool
  | .handshake _ => false
  | .read _ _ => true

def SslRead.calls : SslRead → List SocketCall
  | .handshake calls | .read _ calls => calls

/-- `liana_ssl_handle_read`. -/
def lianaSslHandleRead (conn : LianaSsl) (op : SslRead) : Option (Option (List UInt8) × LianaSsl) :=
  let (copied, conn) := lianaSslHandleRemain conn op.count
  lianaSslReadLoop op.buf op.count conn copied op.calls

/-- A read of the connection and what its caller gets. -/
def LianaSsl.step (conn : LianaSsl) (op : SslRead) : Option LianaSsl := do
  let (ret, conn) ← lianaSslHandleRead conn op
  some { conn with returned := conn.returned ++ ret.getD [] }

def LianaSsl.Step (conn : LianaSsl) (op : SslRead) (conn' : LianaSsl) : Prop :=
  conn.step op = some conn'

/-! ## reads that keep the stream -/

/-- The read ends with `-1` at this event, whatever was copied before. -/
def SocketEvent.fails (event : SocketEvent) : Bool :=
  match event.ret with
  | .failure => !event.again
  | .memFail | .argFail | .protocolFail | .unknown _ => true
  | .alert b0 _ => lianaSslHandleAlert b0 = -1
  | _ => false

/-- The read can take all that is left of the last record; no false start shows a
record; and the read does not fail once there was something to copy. -/
def SslRead.Fits (conn : LianaSsl) (op : SslRead) : Prop :=
  conn.leftover.length ≤ op.count ∧
  (∀ call ∈ op.calls, ∀ ret ∈ call.falseStart, ret.payload = []) ∧
  ∀ call ∈ op.calls, call.event.fails = true →
    conn.leftover = [] ∧ ∀ call' ∈ op.calls, call'.event.ret.payload = []

/-- Using up a part of the buffer leaves the rest. -/
theorem LianaSsl.leftover_use (conn : LianaSsl) (n : Nat) :
    ({ conn with bufUsed := conn.bufUsed + n } : LianaSsl).leftover = conn.leftover.drop n := by
  simp [leftover, List.drop_drop]

theorem lianaSslHandleRemain_eq (conn : LianaSsl) {count : Nat}
    (hfits : conn.leftover.length ≤ count) :
    ∃ conn', lianaSslHandleRemain conn count = (conn.leftover, conn') ∧ conn'.leftover = [] ∧
      conn'.presented = conn.presented ∧ conn'.returned = conn.returned := by
  have hlen : conn.leftover.length ≤ conn.bufLen - conn.bufUsed := by
    simp only [LianaSsl.leftover, List.length_drop, List.length_take]
    omega
  have hremain : conn.leftover.length ≤ min (conn.bufLen - conn.bufUsed) count := le_min hlen hfits
  simp only [lianaSslHandleRemain]
  split
  · have hnil : conn.leftover = [] := List.eq_nil_of_length_eq_zero (by omega)
    exact ⟨conn, by rw [hnil], hnil, rfl, rfl⟩
  · rw [List.take_of_length_le hremain]
    refine ⟨_, rfl, ?_, rfl, rfl⟩
    rw [LianaSsl.leftover_use, List.drop_of_length_le hremain]

/-- A false start that shows no record. -/
theorem LianaSsl.falseStart_cases {conn conn' : LianaSsl} {answer : Option MatrixRet}
    (h : conn.falseStart answer = some conn') (hleft : conn.leftover = [])
    (hanswer : ∀ ret ∈ answer, ret.payload = []) :
    conn'.returned = conn.returned ∧ conn'.presented = conn.presented ∧
      (conn'.needRead = true → conn'.leftover = []) := by
  cases answer with
  | none =>
      simp only [falseStart, Option.ite_none_left_eq_some, Option.some.injEq] at h
      obtain ⟨-, rfl⟩ := h
      exact ⟨rfl, rfl, fun _ => hleft⟩
  | some ret =>
      simp only [falseStart, Option.ite_none_left_eq_some, Option.some.injEq] at h
      obtain ⟨-, rfl⟩ := h
      refine ⟨rfl, ?_, fun hneed => ?_⟩
      · simp [LianaSsl.present, hanswer ret rfl]
      · have hplain : ret.plain = [] := by
          cases ret <;> simp_all [MatrixRet.plain, MatrixRet.negative]
        simp [LianaSsl.leftover, LianaSsl.present, hplain]

/-- What a call of `liana_ssl_handle_socket_read` shows, when nothing was left. -/
theorem lianaSslHandleSocketRead_cases {conn conn' : LianaSsl} {call : SocketCall} {ret : MatrixRet}
    (h : lianaSslHandleSocketRead conn call = some (ret, conn')) (hleft : conn.leftover = [])
    (hstart : ∀ r ∈ call.falseStart, r.payload = []) :
    ret = call.event.ret ∧ conn'.returned = conn.returned ∧
      conn'.presented = conn.presented ++ ret.payload ∧
      (ret.negative = true ∧ conn'.leftover = [] ∨
        conn'.bufSsl = ret.plain ∧ conn'.bufLen = ret.plain.length ∧ conn'.bufUsed = 0) := by
  obtain ⟨conn₁, hconn₁, hask⟩ := Option.bind_eq_some_iff.mp h
  obtain ⟨hret, hpres, hneed⟩ := LianaSsl.falseStart_cases hconn₁ hleft hstart
  rw [← hret, ← hpres]
  cases hevent : call.event with
  | noBuffer argFail =>
      simp only [hevent, LianaSsl.ask, Option.ite_none_right_eq_some, Option.some.injEq,
        Prod.mk.injEq] at hask
      obtain ⟨hn, rfl, rfl⟩ := hask
      refine ⟨rfl, rfl, ?_, .inl ⟨?_, hneed hn⟩⟩ <;> cases argFail <;>
        simp [SocketEvent.ret, MatrixRet.payload, MatrixRet.negative]
  | noBytes space again =>
      simp only [hevent, LianaSsl.ask, Option.ite_none_right_eq_some, Option.some.injEq,
        Prod.mk.injEq] at hask
      obtain ⟨-, rfl, rfl⟩ := hask
      refine ⟨rfl, rfl, (List.append_nil _).symm, .inl ⟨rfl, ?_⟩⟩
      simp [LianaSsl.leftover]
  | received falseStart r again =>
      simp only [hevent, LianaSsl.ask, Option.ite_none_right_eq_some, Option.some.injEq,
        Prod.mk.injEq] at hask
      obtain ⟨-, rfl, rfl⟩ := hask
      exact ⟨rfl, rfl, rfl, .inr ⟨rfl, rfl, rfl⟩⟩
  | processed r again =>
      simp only [hevent, LianaSsl.ask, Option.ite_none_right_eq_some, Option.some.injEq,
        Prod.mk.injEq] at hask
      obtain ⟨-, rfl, rfl⟩ := hask
      exact ⟨rfl, rfl, rfl, .inr ⟨rfl, rfl, rfl⟩⟩

/-- What a turn leaves: every payload byte shown is with a caller, copied, or left over;
and the loop goes on only when nothing is left over. -/
def Turn.Keeps (buf : Bool) (count : Nat) (copied : List UInt8) (conn : LianaSsl) : Turn → Prop
  | .fail => conn.leftover = [] ∧ conn.returned ++ copied = conn.presented
  | .endRead => conn.returned ++ copied ++ conn.leftover = conn.presented
  | .next copied' =>
      copied'.length ≤ count ∧ conn.returned ++ copied' ++ conn.leftover = conn.presented ∧
        (count > copied'.length ∨ buf = false → conn.leftover = [])

theorem lianaSslTurn_keeps {buf : Bool} {count : Nat} {copied : List UInt8} {call : SocketCall}
    {ret : MatrixRet} {conn : LianaSsl} (hcount : copied.length ≤ count)
    (hkept : conn.returned ++ copied ++ ret.payload = conn.presented)
    (hshown : ret.negative = true ∧ conn.leftover = [] ∨
      conn.bufSsl = ret.plain ∧ conn.bufLen = ret.plain.length ∧ conn.bufUsed = 0) :
    (lianaSslTurn buf count copied call ret conn).1.Keeps buf count copied
      (lianaSslTurn buf count copied call ret conn).2 := by
  have hleft : conn.leftover = ret.plain := by
    rcases hshown with ⟨hneg, hleft⟩ | ⟨hbuf, hlen, hused⟩
    · cases ret <;> simp_all [MatrixRet.plain, MatrixRet.negative]
    · simp [LianaSsl.leftover, hbuf, hlen, hused]
  cases ret with
  | failure =>
      simp only [lianaSslTurn]
      split <;> simp_all [Turn.Keeps, MatrixRet.payload, MatrixRet.plain]
  | success =>
      simp_all [lianaSslTurn, Turn.Keeps, MatrixRet.payload, LianaSsl.leftover]
  | alert b0 b1 =>
      have hused := conn.leftover_use 2
      rw [hleft] at hused
      simp only [lianaSslTurn]
      split <;> simp_all [Turn.Keeps, MatrixRet.payload, MatrixRet.plain]
  | appData payload =>
      obtain ⟨hneg, -⟩ | ⟨hbuf, hlen, hused⟩ := hshown
      · contradiction
      · simp only [MatrixRet.plain, MatrixRet.payload] at hbuf hlen hleft hkept
        cases buf with
        | false =>
            rw [← hleft] at hkept
            exact hkept
        | true =>
            have hrest : ∀ n, ({ conn with
                bufSsl := payload, bufLen := payload.length, bufUsed := conn.bufUsed + n,
                handshakeComplete := true } : LianaSsl).leftover = payload.drop n := by
              intro n
              simp [LianaSsl.leftover, hused]
            simp only [lianaSslTurn, hbuf, hlen, Bool.true_eq_false, if_false, Turn.Keeps, hrest,
              List.length_append, List.length_take]
            refine ⟨by omega, ?_, fun hmore => ?_⟩
            · simpa [List.append_assoc] using hkept
            · rcases hmore with hmore | hmore
              · exact List.drop_of_length_le (by omega)
              · contradiction
  | _ => simp_all [lianaSslTurn, Turn.Keeps, MatrixRet.payload, MatrixRet.plain, LianaSsl.leftover]

/-- A turn that fails without `fails` had nothing to lose, and one that shows no payload
copies nothing. -/
theorem lianaSslTurn_fail {buf : Bool} {count : Nat} {copied : List UInt8} {call : SocketCall}
    {conn : LianaSsl} (h : (lianaSslTurn buf count copied call call.event.ret conn).1 = .fail)
    (hfails : call.event.fails = true → copied = []) : copied = [] := by
  unfold lianaSslTurn at h
  unfold SocketEvent.fails at hfails
  cases hret : call.event.ret <;> simp_all <;> grind

/-- A turn that shows no payload copies nothing. -/
theorem lianaSslTurn_next {buf : Bool} {count : Nat} {copied copied' : List UInt8} {call : SocketCall}
    {ret : MatrixRet} {conn : LianaSsl}
    (h : (lianaSslTurn buf count copied call ret conn).1 = .next copied') (hcopied : copied = [])
    (hshown : ret.negative = true ∧ conn.leftover = [] ∨
      conn.bufSsl = ret.plain ∧ conn.bufLen = ret.plain.length ∧ conn.bufUsed = 0)
    (hpayload : ret.payload = []) : copied' = [] := by
  unfold lianaSslTurn at h
  cases ret <;> simp_all [MatrixRet.payload, MatrixRet.plain, MatrixRet.negative] <;> grind

/-- The loop hands over or keeps every payload byte it is shown. -/
theorem lianaSslReadLoop_keeps {buf : Bool} {count : Nat} {conn conn' : LianaSsl}
    {copied : List UInt8} {calls : List SocketCall} {ret : Option (List UInt8)}
    (h : lianaSslReadLoop buf count conn copied calls = some (ret, conn'))
    (hleft : conn.leftover = []) (hcount : copied.length ≤ count)
    (hkept : conn.returned ++ copied = conn.presented)
    (hstart : ∀ call ∈ calls, ∀ ret ∈ call.falseStart, ret.payload = [])
    (hfails : ∀ call ∈ calls, call.event.fails = true →
      copied = [] ∧ ∀ call' ∈ calls, call'.event.ret.payload = []) :
    conn'.returned ++ ret.getD [] ++ conn'.leftover = conn'.presented := by
  induction calls generalizing conn copied with
  | nil => contradiction
  | cons call calls ih =>
      obtain ⟨⟨r, conn₁⟩, hread, h⟩ := Option.bind_eq_some_iff.mp h
      obtain ⟨hr, hreturned, hpresented, hshown⟩ :=
        lianaSslHandleSocketRead_cases hread hleft (hstart call List.mem_cons_self)
      have hturn : (lianaSslTurn buf count copied call r conn₁).1.Keeps buf count copied
          (lianaSslTurn buf count copied call r conn₁).2 :=
        lianaSslTurn_keeps hcount (by rw [hreturned, hpresented, hkept]) hshown
      have hfail := fun hf : (lianaSslTurn buf count copied call r conn₁).1 = .fail =>
        lianaSslTurn_fail (hr ▸ hf) fun hc => (hfails call List.mem_cons_self hc).1
      cases hend : lianaSslTurn buf count copied call r conn₁ with
      | mk turn conn₂ =>
          simp only [hend] at h hturn hfail
          cases turn with
          | fail =>
              obtain ⟨-, h⟩ := Option.ite_none_right_eq_some.mp h
              obtain ⟨rfl, rfl⟩ := Prod.mk.inj (Option.some.inj h)
              obtain ⟨hnil, hall⟩ := hturn
              simpa [hnil, hfail rfl] using hall
          | endRead =>
              obtain ⟨-, h⟩ := Option.ite_none_right_eq_some.mp h
              obtain ⟨rfl, rfl⟩ := Prod.mk.inj (Option.some.inj h)
              exact hturn
          | next copied' =>
              obtain ⟨hcount', hall, hmore⟩ := hturn
              simp only at h
              split at h
              · next hloop =>
                  have hnil := hmore hloop
                  refine ih h hnil hcount' (by simpa [hnil] using hall)
                    (fun c hc => hstart c (List.mem_cons_of_mem _ hc)) fun c hc hf => ?_
                  obtain ⟨hcopied, hnone⟩ := hfails c (List.mem_cons_of_mem _ hc) hf
                  refine ⟨?_, fun c' hc' => hnone c' (List.mem_cons_of_mem _ hc')⟩
                  exact lianaSslTurn_next (congrArg Prod.fst hend) hcopied hshown
                    (hr ▸ hnone call List.mem_cons_self)
              · obtain ⟨-, h⟩ := Option.ite_none_right_eq_some.mp h
                obtain ⟨rfl, rfl⟩ := Prod.mk.inj (Option.some.inj h)
                exact hall

/-- Every read that fits keeps the stream: what was handed over, and what is left of
the last record, are the payloads shown. -/
theorem LianaSsl.step_keeps {conn conn' : LianaSsl} {op : SslRead}
    (hkept : conn.returned ++ conn.leftover = conn.presented) (hfits : op.Fits conn)
    (h : conn.Step op conn') : conn'.returned ++ conn'.leftover = conn'.presented := by
  obtain ⟨hcount, hstart, hfails⟩ := hfits
  obtain ⟨conn₁, hremain, hnil, hpresented, hreturned⟩ := lianaSslHandleRemain_eq conn hcount
  obtain ⟨⟨ret, conn₂⟩, hread, h⟩ := Option.bind_eq_some_iff.mp h
  obtain rfl := Option.some.inj h
  rw [lianaSslHandleRead, hremain] at hread
  exact lianaSslReadLoop_keeps hread hnil hcount (by rw [hreturned, hpresented, hkept]) hstart hfails

/-- In every run of reads that fit, the bytes handed to the callers are the first bytes
of the payloads, and only what is left of the last record is missing. -/
theorem ssl_read_in_order {ops : List SslRead} {conn : LianaSsl}
    (h : Run (Guarded (fun conn op => op.Fits conn) LianaSsl.Step) lianaSslNewConnection ops conn) :
    conn.returned <+: conn.presented ∧ conn.presented = conn.returned ++ conn.leftover := by
  have hkept : conn.returned ++ conn.leftover = conn.presented :=
    h.guarded_invariant (I := fun conn => conn.returned ++ conn.leftover = conn.presented)
      (fun _ _ _ hs hfits hstep => LianaSsl.step_keeps hs hfits hstep) rfl
  exact ⟨⟨conn.leftover, hkept⟩, hkept.symm⟩

/-- The calls of a read that takes a new record and then finds no more. -/
def sampleCalls (payload : List UInt8) : List SocketCall :=
  [{ event := .received false (.appData payload) false }, { event := .processed .success false }]

/-- A record read in two parts, the second of which takes all that is left. -/
theorem ssl_read_in_order_two_parts :
    ∃ conn, Run (Guarded (fun conn op => op.Fits conn) LianaSsl.Step) lianaSslNewConnection
      [.read 3 [{ event := .received false (.appData [1, 2, 3, 4, 5]) false }],
        .read 4 [{ event := .processed .success false }], .read 4 (sampleCalls [6])] conn ∧
      conn.returned = [1, 2, 3, 4, 5, 6] ∧ conn.returned <+: conn.presented := by
  have hrun : ∃ conn, Run (Guarded (fun conn op => op.Fits conn) LianaSsl.Step) lianaSslNewConnection
      [.read 3 [{ event := .received false (.appData [1, 2, 3, 4, 5]) false }],
        .read 4 [{ event := .processed .success false }], .read 4 (sampleCalls [6])] conn ∧
      conn.returned = [1, 2, 3, 4, 5, 6] := by
    refine ⟨_, .cons ⟨?_, rfl⟩ (.cons ⟨?_, rfl⟩ (.cons ⟨?_, rfl⟩ (.nil _))), rfl⟩
    all_goals
      unfold SslRead.Fits
      decide
  obtain ⟨conn, hrun, hreturned⟩ := hrun
  exact ⟨conn, hrun, hreturned, (ssl_read_in_order hrun).1⟩

/-- A record of five bytes read two bytes at a time: the second read asks for the next
record while one byte of the first is left, and that byte is lost. -/
theorem ssl_read_drops_leftover :
    ¬ ∀ ops conn, Run LianaSsl.Step lianaSslNewConnection ops conn → conn.returned <+: conn.presented := by
  intro h
  have hrun : ∃ conn, Run LianaSsl.Step lianaSslNewConnection
      [.read 2 [{ event := .received false (.appData [1, 2, 3, 4, 5]) false }],
        .read 2 [{ event := .processed .success false }], .read 2 (sampleCalls [6])] conn ∧
      conn.returned = [1, 2, 3, 4, 6] ∧ conn.presented = [1, 2, 3, 4, 5, 6] :=
    ⟨_, .cons rfl (.cons rfl (.cons rfl (.nil _))), rfl, rfl⟩
  obtain ⟨conn, hrun, hreturned, hpresented⟩ := hrun
  have hpre := h _ conn hrun
  rw [hreturned, hpresented] at hpre
  exact absurd hpre (by decide)

end Monkey
