import Monkey.Connection
import Monkey.Lib.CString
import Monkey.Lib.Fifo

/-!
# Monkey.Liana.SslWrite

The output of a connection of `liana_ssl` (`_mkp_network_io_write`, `_mkp_network_io_writev`,
`_mkp_event_write`).

The library seals what it is given and keeps it until it is told how much of it the socket has
taken.  `need_write` is what sends the event loop there: `_mkp_network_io_write` sets it, and
`_mkp_network_io_writev` does not.
-/

namespace Monkey

/-! ## the library -/

/-- What `matrixSslSentData` returns once nothing is left. -/
inductive SentRet
  | success | requestClose | handshakeComplete | unknown
deriving DecidableEq, Repr

/-- What a turn of the loop of `_mkp_event_write` meets when there is something to send. -/
inductive SslSend
  /-- `matrixSslGetOutdata` fails. -/
  | argFail
  /-- `write` gives `EAGAIN`. -/
  | again
  /-- `write` fails. -/
  | error
  /-- `write` takes some bytes, and the library answers `sent` if these were the last. -/
  | took (bytes : Bytes) (sent : SentRet)
deriving DecidableEq, Repr

/-- The output side of `struct mk_liana_ssl`, with what `matrixSslGetOutdata` shows.  Records are
bytes here, sealed by the library in a way that the code does not see, and that a record holds
what was written is the library's affair: the results are about the records and their order. -/
structure SslOut where
  outdata : Bytes := []
  needWrite : Bool := false
  handshakeComplete : Bool := false
  tryFalseStart : Bool := false
deriving DecidableEq, Repr

/-! ## the functions -/

/-- What `_mkp_event_write` returns behind its loop. -/
def SslOut.writeRet (conn : SslOut) (shouldClose : Bool) : EventRet :=
  if shouldClose then .close
  else if conn.handshakeComplete = false then .owned
  else if conn.tryFalseStart then .owned
  else .next

/-- How a turn of the loop of `_mkp_event_write` ends. -/
inductive SslTurn
  | done (ret : EventRet) (conn : SslOut)
  | next (shouldClose : Bool) (conn : SslOut)

def SslTurn.conn : SslTurn → SslOut
  | .done _ conn | .next _ conn => conn

/-- The library is told what the socket has taken (`matrixSslSentData`); with more to send it
answers `MATRIXSSL_REQUEST_SEND`. -/
def sslSentData (conn : SslOut) (shouldClose : Bool) (sent : SentRet) : SslTurn :=
  if conn.outdata ≠ [] then .next shouldClose conn
  else
    match sent with
    | .requestClose => .next true { conn with needWrite := false }
    | .unknown => .next shouldClose conn
    | .handshakeComplete =>
        let conn := { conn with handshakeComplete := true }
        .done (conn.writeRet shouldClose) conn
    | .success =>
        let conn := { conn with needWrite := false }
        .done (conn.writeRet shouldClose) conn

/-- A turn of the loop with something to send. -/
def sslWriteTurn (conn : SslOut) (shouldClose : Bool) : SslSend → Option SslTurn
  | .argFail | .error => some (.done (conn.writeRet true) conn)
  | .again => some (.done .continue conn)
  | .took bytes sent =>
      if bytes.isPrefixOf conn.outdata then
        some (sslSentData { conn with outdata := conn.outdata.drop bytes.length } shouldClose sent)
      else none

/-- The loop of `_mkp_event_write`, which has to come to its end with the last turn. -/
def sslWriteLoop : SslOut → Bool → List SslSend → Option (EventRet × SslOut)
  | conn, shouldClose, [] =>
      if conn.outdata = [] then
        let conn := { conn with needWrite := false }
        some (conn.writeRet shouldClose, conn)
      else none
  | conn, shouldClose, s :: sends =>
      if conn.outdata = [] then none
      else
        match sslWriteTurn conn shouldClose s with
        | none => none
        | some (.done ret conn) => if sends = [] then some (ret, conn) else none
        | some (.next shouldClose conn) => sslWriteLoop conn shouldClose sends

/-- `_mkp_event_write`. -/
def sslEventWrite (conn : SslOut) (sends : List SslSend) : Option (EventRet × SslOut) :=
  if conn.needWrite = false then if sends = [] then some (.next, conn) else none
  else sslWriteLoop conn false sends

/-- `_mkp_network_io_write` of `count` bytes: the room that `matrixSslGetWritebuf` gives, and what
`matrixSslEncodeWritebuf` makes of them; `none` is a failure of either. -/
def sslNetworkIoWrite (conn : SslOut) (buf : Bytes) (room : Option Nat) (sealed : Option Bytes) (sends : List SslSend) :
    Option (Int × SslOut) :=
  match room, sealed with
  | none, _ | _, none => if sends = [] then some (-1, conn) else none
  | some len, some sealed => do
      let conn := { conn with outdata := conn.outdata ++ sealed, needWrite := true }
      let (_, conn) ← sslEventWrite conn sends
      some ((min len buf.length : Nat), conn)

/-- `_mkp_network_io_writev`, which does not look at how much room there is: `none` is a write
behind the buffer of the library. -/
def sslNetworkIoWritev (conn : SslOut) (io : List Bytes) (room : Option Nat) (sealed : Option Bytes) :
    Option (Int × SslOut) :=
  if io.flatten.length = 0 then some (0, conn)
  else
    match room, sealed with
    | none, _ => some (-1, conn)
    | some len, sealed =>
        if len < io.flatten.length then none
        else
          match sealed with
          | none => some (-1, conn)
          | some sealed => some (io.flatten.length, { conn with outdata := conn.outdata ++ sealed })

/-! ## runs -/

/-- A call on the connection: a write of the server, a write event, or a read in which the library
has records of its own to send. -/
inductive SslAct
  | write (buf : Bytes) (room : Option Nat) (sealed : Option Bytes) (sends : List SslSend)
  | writev (io : List Bytes) (room : Option Nat) (sealed : Option Bytes)
  | eventWrite (sends : List SslSend)
  | requestSend (records : Bytes) (sends : List SslSend)
deriving DecidableEq, Repr

def SslOut.step (conn : SslOut) : SslAct → Option SslOut
  | .write buf room sealed sends => (sslNetworkIoWrite conn buf room sealed sends).map Prod.snd
  | .writev io room sealed => (sslNetworkIoWritev conn io room sealed).map Prod.snd
  | .eventWrite sends => (sslEventWrite conn sends).map Prod.snd
  | .requestSend records sends =>
      (sslEventWrite { conn with outdata := conn.outdata ++ records, needWrite := true } sends).map Prod.snd

abbrev SslRun : SslOut → List SslAct → SslOut → Prop := Run fun s a s' => s.step a = some s'

/-- The bytes that a turn puts on the wire. -/
def SslSend.wire : SslSend → Bytes
  | .took bytes _ => bytes
  | _ => []

def SslAct.sends : SslAct → List SslSend
  | .write _ _ _ sends | .eventWrite sends | .requestSend _ sends => sends
  | .writev _ _ _ => []

/-- What a call puts on the wire. -/
def SslAct.wire (a : SslAct) : Bytes := along SslSend.wire a.sends

/-- What a call has the library seal. -/
def SslAct.sealed : SslAct → Bytes
  | .write _ room sealed _ => if room = none then [] else sealed.getD []
  | .writev io room sealed => if io.flatten.length = 0 ∨ room = none then [] else sealed.getD []
  | .eventWrite _ => []
  | .requestSend records _ => records

/-- `_mkp_network_io_writev`. -/
def SslAct.isWritev : SslAct → Bool
  | .writev _ _ _ => true
  | _ => false

/-- A call that has the library seal something and sets `need_write`. -/
def SslAct.urges : SslAct → Bool
  | .write _ room sealed _ => room.isSome ∧ sealed.isSome
  | .requestSend _ _ => true
  | _ => false

/-- A turn in which the socket takes something. -/
def SslSend.took? : SslSend → Bool
  | .took _ _ => true
  | _ => false

/-! ## one call -/

/-- Nothing is pending without the flag. -/
def SslOut.Flagged (conn : SslOut) : Prop := conn.needWrite = false → conn.outdata = []

theorem sslSentData_keeps {conn : SslOut} (h : conn.Flagged) (shouldClose : Bool) (sent : SentRet) :
    (sslSentData conn shouldClose sent).conn.outdata = conn.outdata ∧ (sslSentData conn shouldClose sent).conn.Flagged ∧
      ∀ ret t, sslSentData conn shouldClose sent = .done ret t → t.outdata = [] := by
  unfold sslSentData
  by_cases hmore : conn.outdata = []
  · rw [if_neg (not_not.mpr hmore)]
    cases sent with
    | success => exact ⟨rfl, fun _ => hmore, fun ret t ht => by cases ht; exact hmore⟩
    | requestClose => exact ⟨rfl, fun _ => hmore, fun ret t ht => by cases ht⟩
    | handshakeComplete => exact ⟨rfl, h, fun ret t ht => by cases ht; exact hmore⟩
    | unknown => exact ⟨rfl, h, fun ret t ht => by cases ht⟩
  · rw [if_pos hmore]
    exact ⟨rfl, h, fun ret t ht => by cases ht⟩

theorem sslWriteTurn_keeps {conn : SslOut} {shouldClose : Bool} {s : SslSend} {turn : SslTurn}
    (h : sslWriteTurn conn shouldClose s = some turn) (hconn : conn.Flagged) :
    conn.outdata = s.wire ++ turn.conn.outdata ∧ turn.conn.Flagged ∧
      (s.took? = true → ∀ ret t, turn = .done ret t → t.outdata = []) := by
  cases s with
  | argFail => cases h; exact ⟨rfl, hconn, fun h => by cases h⟩
  | again => cases h; exact ⟨rfl, hconn, fun h => by cases h⟩
  | error => cases h; exact ⟨rfl, hconn, fun h => by cases h⟩
  | took bytes sent =>
      rw [sslWriteTurn] at h
      split at h
      · obtain ⟨rest, hrest⟩ := List.isPrefixOf_iff_prefix.mp ‹_›
        cases h
        have hflagged : SslOut.Flagged { conn with outdata := conn.outdata.drop bytes.length } := by
          intro hneed
          have hnone : conn.outdata = [] := hconn hneed
          simp [hnone]
        obtain ⟨hsame, hkeeps, hend⟩ := sslSentData_keeps hflagged shouldClose sent
        refine ⟨?_, hkeeps, fun _ => hend⟩
        rw [hsame, ← hrest, List.drop_left]
        rfl
      · cases h

theorem sslWriteLoop_keeps {conn conn' : SslOut} {shouldClose : Bool} {sends : List SslSend} {ret : EventRet}
    (h : sslWriteLoop conn shouldClose sends = some (ret, conn')) (hconn : conn.Flagged) :
    conn.outdata = along SslSend.wire sends ++ conn'.outdata ∧ conn'.Flagged ∧
      ((∀ s ∈ sends, s.took? = true) → conn'.outdata = []) := by
  induction sends generalizing conn shouldClose with
  | nil =>
      rw [sslWriteLoop] at h
      split at h
      · cases h
        exact ⟨rfl, fun _ => ‹_›, fun _ => ‹_›⟩
      · cases h
  | cons s sends ih =>
      rw [sslWriteLoop] at h
      split at h
      · cases h
      · rcases hturn : sslWriteTurn conn shouldClose s with _ | ⟨ret', t⟩ | ⟨close', t⟩
        · rw [hturn] at h
          cases h
        · obtain ⟨hwire, hkeeps, hend⟩ := sslWriteTurn_keeps hturn hconn
          simp only [hturn] at h
          split at h
          · cases h
            subst ‹sends = []›
            refine ⟨?_, hkeeps, fun hall => hend (hall s List.mem_cons_self) _ _ rfl⟩
            rw [along_cons, along_nil, List.append_nil]
            exact hwire
          · cases h
        · obtain ⟨hwire, hkeeps, -⟩ := sslWriteTurn_keeps hturn hconn
          simp only [hturn] at h
          obtain ⟨hrest, hflagged, hall⟩ := ih h hkeeps
          refine ⟨?_, hflagged, fun h => hall fun s hs => h s (List.mem_cons_of_mem _ hs)⟩
          rw [along_cons, List.append_assoc, ← hrest]
          exact hwire

theorem sslEventWrite_keeps {conn conn' : SslOut} {sends : List SslSend} {ret : EventRet}
    (h : sslEventWrite conn sends = some (ret, conn')) (hneed : conn.needWrite = true) :
    conn.outdata = along SslSend.wire sends ++ conn'.outdata ∧ conn'.Flagged ∧
      ((∀ s ∈ sends, s.took? = true) → conn'.outdata = []) := by
  rw [sslEventWrite, if_neg (by simp [hneed])] at h
  exact sslWriteLoop_keeps h fun hnot => by simp [hneed] at hnot

/-- A call that urges, with what it seals put behind the rest. -/
theorem SslOut.step_urges {s s' : SslOut} {a : SslAct} (h : s.step a = some s') (ha : a.urges = true) :
    s.outdata ++ a.sealed = a.wire ++ s'.outdata ∧ s'.Flagged ∧
      ((∀ t ∈ a.sends, t.took? = true) → s'.outdata = []) := by
  cases a with
  | writev io room sealed => cases ha
  | eventWrite sends => cases ha
  | requestSend records sends =>
      obtain ⟨⟨ret, t⟩, hwrite, rfl⟩ := Option.map_eq_some_iff.mp h
      exact sslEventWrite_keeps hwrite rfl
  | write buf room sealed sends =>
      rcases room with _ | len
      · cases ha
      · rcases sealed with _ | sealed
        · cases ha
        · obtain ⟨⟨ret, t⟩, hwrite, rfl⟩ := Option.map_eq_some_iff.mp h
          rw [sslNetworkIoWrite] at hwrite
          obtain ⟨⟨ret', t'⟩, hevent, hret⟩ := Option.bind_eq_some_iff.mp hwrite
          cases hret
          exact sslEventWrite_keeps hevent rfl

/-- A call that does not urge: it leaves the flag and the wire alone, or it is a write event that
finds the flag set. -/
theorem SslOut.step_quiet {s s' : SslOut} {a : SslAct} (h : s.step a = some s') (ha : a.urges = false) :
    (s'.needWrite = s.needWrite ∧ s'.outdata = s.outdata ++ a.sealed ∧ a.wire = [] ∧
        (a.sealed = [] ∨ a.isWritev = true)) ∨
      (∃ sends, a = .eventWrite sends ∧ s.needWrite = true ∧ s.outdata = a.wire ++ s'.outdata ∧ s'.Flagged) := by
  cases a with
  | requestSend records sends => cases ha
  | eventWrite sends =>
      obtain ⟨⟨ret, t⟩, hwrite, rfl⟩ := Option.map_eq_some_iff.mp h
      by_cases hneed : s.needWrite = true
      · obtain ⟨hwire, hflagged, -⟩ := sslEventWrite_keeps hwrite hneed
        exact .inr ⟨sends, rfl, hneed, hwire, hflagged⟩
      · rw [sslEventWrite, if_pos (by simpa using hneed)] at hwrite
        split at hwrite
        · cases hwrite
          subst ‹sends = []›
          exact .inl ⟨rfl, by simp [SslAct.sealed], rfl, .inl rfl⟩
        · cases hwrite
  | writev io room sealed =>
      obtain ⟨⟨ret, t⟩, hwrite, rfl⟩ := Option.map_eq_some_iff.mp h
      suffices hsame : t.needWrite = s.needWrite ∧ t.outdata = s.outdata ++ (SslAct.writev io room sealed).sealed from
        .inl ⟨hsame.1, hsame.2, rfl, .inr rfl⟩
      unfold sslNetworkIoWritev at hwrite
      by_cases hempty : io.flatten.length = 0
      · rw [if_pos hempty] at hwrite
        cases hwrite
        exact ⟨rfl, by rw [SslAct.sealed, if_pos (.inl hempty), List.append_nil]⟩
      · rw [if_neg hempty] at hwrite
        rcases room with _ | len
        · cases hwrite
          exact ⟨rfl, by rw [SslAct.sealed, if_pos (.inr rfl), List.append_nil]⟩
        · have hsealed : (SslAct.writev io (some len) sealed).sealed = sealed.getD [] := by
            rw [SslAct.sealed, if_neg (by simpa using hempty)]
          simp only at hwrite
          split at hwrite
          · cases hwrite
          · rcases sealed with _ | sealed
            · cases hwrite
              exact ⟨rfl, by rw [hsealed, Option.getD_none, List.append_nil]⟩
            · cases hwrite
              exact ⟨rfl, by rw [hsealed, Option.getD_some]⟩
  | write buf room sealed sends =>
      obtain ⟨⟨ret, t⟩, hwrite, rfl⟩ := Option.map_eq_some_iff.mp h
      have hfailed : t = s ∧ sends = [] ∧ (SslAct.write buf room sealed sends).sealed = [] := by
        rcases room with _ | len
        · simp only [sslNetworkIoWrite] at hwrite
          split at hwrite
          · cases hwrite
            exact ⟨rfl, ‹_›, rfl⟩
          · cases hwrite
        · rcases sealed with _ | sealed
          · simp only [sslNetworkIoWrite] at hwrite
            split at hwrite
            · cases hwrite
              exact ⟨rfl, ‹_›, by simp [SslAct.sealed]⟩
            · cases hwrite
          · cases ha
      obtain ⟨rfl, rfl, hsealed⟩ := hfailed
      exact .inl ⟨rfl, by simp [hsealed], rfl, .inl hsealed⟩

/-! ## runs -/

/-- **In order**: what is on the wire and what the library still holds is what was sealed, in the
order of the calls, and nothing of it is lost or sent twice. -/
theorem ssl_output_in_order {s s' : SslOut} {as : List SslAct} (h : SslRun s as s') :
    s.outdata ++ along SslAct.sealed as = along SslAct.wire as ++ s'.outdata := by
  refine h.fifo SslOut.outdata SslAct.sealed SslAct.wire fun s a s' hstep => ?_
  rcases ha : a.urges with _ | _
  · rcases SslOut.step_quiet hstep ha with ⟨-, hout, hwire, -⟩ | ⟨sends, rfl, -, hout, -⟩
    · rw [hwire, hout, List.nil_append]
    · rw [SslAct.sealed, List.append_nil]
      exact hout
  · exact (SslOut.step_urges hstep ha).1

/-- A header is sealed, and goes out before the page with the next write, which the socket takes in
two pieces. -/
theorem ssl_output_in_order_page : ∃ s' : SslOut,
    SslRun { handshakeComplete := true }
      [.writev [[1, 2, 3]] (some 16) (some [7, 8, 9]),
        .write [4, 5] (some 16) (some [10, 11]) [.took [7, 8] .success, .took [9, 10, 11] .success]] s' ∧
      [7, 8, 9, 10, 11] = [7, 8, 9, 10, 11] ++ s'.outdata := by
  have hrun : SslRun { handshakeComplete := true }
      [.writev [[1, 2, 3]] (some 16) (some [7, 8, 9]),
        .write [4, 5] (some 16) (some [10, 11]) [.took [7, 8] .success, .took [9, 10, 11] .success]]
      { handshakeComplete := true } :=
    Run.of_foldlM rfl
  exact ⟨_, hrun, ssl_output_in_order hrun⟩

/-- What was sealed since nothing was left is still there, and it comes from `writev`. -/
def SslOut.Waits (s : SslOut) (as : List SslAct) (s' : SslOut) : Prop :=
  ∃ as₁ as₂ t, as = as₁ ++ as₂ ∧ SslRun s as₁ t ∧ t.outdata = [] ∧ s'.outdata = along SslAct.sealed as₂ ∧
    ∀ a ∈ as₂, a.wire = [] ∧ (a.sealed = [] ∨ a.isWritev = true)

theorem SslOut.Waits.of_empty {s s' : SslOut} {as : List SslAct} (h : SslRun s as s') (hs' : s'.outdata = []) :
    s.Waits as s' :=
  ⟨as, [], s', (List.append_nil as).symm, h, hs', hs', by simp⟩

theorem SslOut.Waits.snoc {s s' s'' : SslOut} {as : List SslAct} {a : SslAct} (h : s.Waits as s')
    (hout : s''.outdata = s'.outdata ++ a.sealed) (ha : a.wire = [] ∧ (a.sealed = [] ∨ a.isWritev = true)) :
    s.Waits (as ++ [a]) s'' := by
  obtain ⟨as₁, as₂, t, rfl, hrun, ht, hs', hall⟩ := h
  refine ⟨as₁, as₂ ++ [a], t, List.append_assoc _ _ _, hrun, ht, ?_, ?_⟩
  · rw [hout, hs', along_append, along_cons, along_nil, List.append_nil]
  · intro b hb
    rcases List.mem_append.mp hb with hb | hb
    · exact hall b hb
    · rw [List.mem_singleton.mp hb]
      exact ha

theorem ssl_waits {s s' : SslOut} {as : List SslAct} (hs : s.outdata = []) (h : SslRun s as s')
    (hneed : s'.needWrite = false) : s.Waits as s' := by
  have hall : SslRun s as s' ∧ (s'.needWrite = false → s.Waits as s') := by
    refine h.history (J := fun as s' => SslRun s as s' ∧ (s'.needWrite = false → s.Waits as s')) ?_
      ⟨.nil s, fun _ => .of_empty (.nil s) hs⟩
    rintro bs t a t' ⟨hrun, hwaits⟩ hstep
    have hrun' := hrun.append (.cons hstep (.nil t'))
    refine ⟨hrun', fun hneed' => ?_⟩
    rcases ha : a.urges with _ | _
    · rcases SslOut.step_quiet hstep ha with ⟨hsame, hout, hquiet⟩ | ⟨sends, -, -, -, hflagged⟩
      · exact (hwaits (hsame ▸ hneed')).snoc hout hquiet
      · exact .of_empty hrun' (hflagged hneed')
    · exact .of_empty hrun' ((SslOut.step_urges hstep ha).2.1 hneed')
  exact hall.2 hneed

/-- Without the flag nothing is sent, whatever else is called. -/
theorem ssl_quiet {s s' : SslOut} {as : List SslAct} (h : SslRun s as s') (hneed : s.needWrite = false)
    (hall : ∀ a ∈ as, a.urges = false) :
    along SslAct.wire as = [] ∧ s'.outdata = s.outdata ++ along SslAct.sealed as := by
  induction h with
  | nil s => simp [along_nil]
  | @cons s t s' a as hstep _ ih =>
      rcases SslOut.step_quiet hstep (hall a List.mem_cons_self) with ⟨hsame, hout, hwire, -⟩ | ⟨_, _, hset, _⟩
      · obtain ⟨hrest, hpending⟩ := ih (hsame ▸ hneed) fun b hb => hall b (List.mem_cons_of_mem a hb)
        exact ⟨by rw [along_cons, hwire, hrest, List.append_nil], by rw [hpending, hout, along_cons, List.append_assoc]⟩
      · rw [hneed] at hset
        cases hset

/-- **What waits** in a connection that has not been told to write: what `writev` has had sealed
since the library was last empty, and nothing else.  Write events and further calls of `writev` do
not send any of it; the next write of the server, or the next record of the library itself, takes it along
if the socket takes all it is given. -/
theorem ssl_output_waits {s s' : SslOut} {as : List SslAct} (hs : s.outdata = []) (h : SslRun s as s')
    (hneed : s'.needWrite = false) :
    s.Waits as s' ∧
      (∀ bs t, SslRun s' bs t → (∀ b ∈ bs, b.urges = false) →
        along SslAct.wire bs = [] ∧ t.outdata = s'.outdata ++ along SslAct.sealed bs) ∧
      ∀ b t, s'.step b = some t → b.urges = true → (∀ u ∈ b.sends, u.took? = true) →
        b.wire = s'.outdata ++ b.sealed ∧ t.outdata = [] := by
  refine ⟨ssl_waits hs h hneed, fun bs t hbs hall => ssl_quiet hbs hneed hall, fun b t hstep hb hall => ?_⟩
  obtain ⟨hwire, -, hempty⟩ := SslOut.step_urges hstep hb
  rw [hempty hall, List.append_nil] at hwire
  exact ⟨hwire.symm, hempty hall⟩

/-- A header of three bytes, two write events, and nothing on the wire. -/
theorem ssl_output_waits_header : ∃ s' : SslOut,
    SslRun { handshakeComplete := true } [.writev [[1, 2, 3]] (some 16) (some [7, 8, 9]), .eventWrite [], .eventWrite []] s' ∧
      s'.outdata = [7, 8, 9] ∧
      SslOut.Waits { handshakeComplete := true }
        [.writev [[1, 2, 3]] (some 16) (some [7, 8, 9]), .eventWrite [], .eventWrite []] s' := by
  have hrun : SslRun { handshakeComplete := true }
      [.writev [[1, 2, 3]] (some 16) (some [7, 8, 9]), .eventWrite [], .eventWrite []]
      { outdata := [7, 8, 9], handshakeComplete := true } :=
    Run.of_foldlM rfl
  exact ⟨_, hrun, rfl, (ssl_output_waits rfl hrun rfl).1⟩

end Monkey
