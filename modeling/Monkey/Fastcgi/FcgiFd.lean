import Monkey.Fastcgi.Request
import Monkey.Lib.CInt

/-!
# Monkey.Fastcgi.FcgiFd

The backend connections of a worker of the FastCGI plugin (`fcgi_fd.c`): the state
machine of one slot, the list of them, and the matrix that distributes the allowed
connections of the servers over the worker threads.

The names and the regular expression of a location are left out.  Memory is granted or not as the
caller says.  The matrix and the list are filled with the widths of their numbers, which wrap
around when there are too many connections; the handlers work on the list that is made where they
do not.
-/

namespace Monkey.Fastcgi

/-! ## one connection -/

/-- `enum fcgi_fd_type`. -/
inductive FcgiFdType
  | unix | inet
deriving DecidableEq, Repr

/-- `enum fcgi_fd_state`. -/
inductive FcgiFdState
  | available | ready | sending | receiving | closing | sleeping
deriving DecidableEq, Repr

/-- `struct fcgi_fd`; `beginReq` is the request whose `iov` it points to, by its place in the list
of the thread, so that a slot used again for another client is seen through the same pointer. -/
structure FcgiFd where
  type : FcgiFdType
  state : FcgiFdState := .available
  fd : Int := -1
  serverId : Nat
  locationId : Nat
  beginReqRemain : Nat := 0
  beginReq : Option Nat := none
  chunk : Option Chunk := none
deriving DecidableEq, Repr

/-- `fcgi_fd_init`. -/
def fcgiFdInit (type : FcgiFdType) (serverId locationId : Nat) : FcgiFd :=
  { type := type, serverId := serverId, locationId := locationId }

/-- The states from which `fcgi_fd_set_state` accepts a transition. -/
def fdCanFollow : FcgiFdState → FcgiFdState → Bool
  | .available, s => s == .closing || s == .sleeping
  | .ready, s => s == .available || s == .receiving || s == .sleeping
  | .sending, s => s == .ready
  | .receiving, s => s == .sending
  | .closing, s => s == .ready || s == .receiving
  | .sleeping, s => s == .ready

/-- `fcgi_fd_set_state`. -/
def fcgiFdSetState (fd : FcgiFd) (state : FcgiFdState) : Option FcgiFd :=
  if fdCanFollow state fd.state then some { fd with state := state } else none

/-- `fcgi_fd_set_begin_req_iov`, for the request `r`. -/
def fcgiFdSetBeginReqIov (fd : FcgiFd) (r : Nat) (iov : ChunkIov) : Option FcgiFd :=
  if fd.state = .ready then some { fd with beginReqRemain := chunkIovLength iov, beginReq := some r }
  else none

/-- `fcgi_fd_set_chunk`: the last `inherit` bytes of the old chunk go to the new one. -/
def fcgiFdSetChunk (old : Option Chunk) (a : Chunk) (inherit : Nat) : Option Chunk :=
  match old with
  | some b =>
      if 0 < inherit then
        if inherit ≤ b.write ∧ inherit < a.size - a.write then
          some { a with data := a.data ++ b.data.drop (b.write - inherit) }
        else none
      else some a
  | none => if inherit = 0 then some a else none

/-! ## the list -/

/-- `fcgi_fd_list_get`: the first connection of a location in one of the states. -/
def fcgiFdListGet (fds : List FcgiFd) (states : List FcgiFdState) (locationId : Nat) : Option Nat :=
  fds.findIdx? fun fd => states.contains fd.state && fd.locationId == locationId

/-- `fcgi_fd_list_get_by_fd`. -/
def fcgiFdListGetByFd (fds : List FcgiFd) (fd : Int) : Option Nat := fds.findIdx? (·.fd == fd)

theorem fcgiFdSetState_eq_some {fd fd' : FcgiFd} {state : FcgiFdState} (h : fcgiFdSetState fd state = some fd') :
    fdCanFollow state fd.state = true ∧ fd' = { fd with state := state } := by
  unfold fcgiFdSetState at h
  split at h
  · next hfollow => exact ⟨hfollow, (Option.some.inj h).symm⟩
  · contradiction

theorem findIdx?_getD {α : Type} {l : List α} {p : α → Bool} {i : Nat} (h : l.findIdx? p = some i) (d : α) :
    i < l.length ∧ p (l.getD i d) = true := by
  obtain ⟨hlt, hp, -⟩ := List.findIdx?_eq_some_iff_getElem.mp h
  exact ⟨hlt, by simpa [hlt] using hp⟩

theorem fcgiFdListGet_some {fds : List FcgiFd} {states : List FcgiFdState} {locationId i : Nat}
    (h : fcgiFdListGet fds states locationId = some i) (d : FcgiFd) :
    i < fds.length ∧ (fds.getD i d).state ∈ states ∧ (fds.getD i d).locationId = locationId := by
  obtain ⟨hlt, hp⟩ := findIdx?_getD h d
  simp only [Bool.and_eq_true, List.contains_iff_mem, beq_iff_eq] at hp
  exact ⟨hlt, hp⟩

theorem fcgiFdListGetByFd_some {fds : List FcgiFd} {fd : Int} {i : Nat} (h : fcgiFdListGetByFd fds fd = some i)
    (d : FcgiFd) : i < fds.length ∧ (fds.getD i d).fd = fd := by
  obtain ⟨hlt, hp⟩ := findIdx?_getD h d
  exact ⟨hlt, by simpa using hp⟩

theorem fcgiFdListGetByFd_none {fds : List FcgiFd} {fd : Int} (h : fcgiFdListGetByFd fds fd = none) :
    ∀ f ∈ fds, f.fd ≠ fd := by
  intro f hf
  simpa using List.findIdx?_eq_none_iff.mp h f hf

/-! ## the configuration -/

/-- `struct fcgi_server`, without its name. -/
structure FcgiServer where
  path : Option Bytes := none
  addr : Option Bytes := none
  port : Int := 0
  maxConnections : UInt32 := 0
deriving DecidableEq, Repr

/-- `struct fcgi_location`, without its name and its regular expression. -/
structure FcgiLocation where
  keepAlive : Bool := false
  serverIds : List Nat := []
deriving DecidableEq, Repr

/-- `struct fcgi_config`. -/
structure FcgiConfig where
  servers : List FcgiServer := []
  locations : List FcgiLocation := []
deriving DecidableEq, Repr

/-! ## the matrix -/

/-- `struct fcgi_fd_matrix`: `counts` in rows of `serverCount`, one for each of the threads;
`none` is a matrix without memory, of no thread and no server.  A cell is an `unsigned int`,
and wraps around. -/
structure FcgiFdMatrix where
  serverCount : Nat
  threadCount : Nat
  counts : Option (List UInt32)
deriving DecidableEq, Repr

/-- The loop of `distribute_conns_normal` over the connections of one server. -/
def spreadServer (serverCount threadCount srvId : Nat) : Nat → Nat → List UInt32 → Nat × List UInt32
  | 0, j, counts => (j, counts)
  | fdCount + 1, j, counts =>
      spreadServer serverCount threadCount srvId fdCount ((j + 1) % threadCount)
        (counts.modify (j * serverCount + srvId) (· + 1))

/-- `distribute_conns_normal`: the thread clock runs on from server to server. -/
def distributeConnsNormal (config : FcgiConfig) (serverCount threadCount : Nat) (serverIds : List Nat)
    (counts : List UInt32) : List UInt32 :=
  if 0 < threadCount then
    (serverIds.foldl (fun (clock, counts) srvId =>
      spreadServer serverCount threadCount srvId (config.servers.getD srvId {}).maxConnections.toNat
        clock counts) (0, counts)).2
  else counts

/-- `distribute_conns_fallback`: one connection a thread, servers in turn. -/
def distributeConnsFallback (serverCount threadCount : Nat) (serverIds : List Nat) (counts : List UInt32) :
    List UInt32 :=
  if 0 < serverIds.length then
    (List.range threadCount).foldl (fun counts t =>
      counts.set (t * serverCount + serverIds.getD (t % serverIds.length) 0) 1) counts
  else counts

/-- The connections of a location, at least one for each server (`unsigned int`). -/
def locFdCount (config : FcgiConfig) (loc : FcgiLocation) : Nat :=
  (loc.serverIds.map fun s =>
    let n := (config.servers.getD s {}).maxConnections.toNat
    if n > 0 then n else 1).sum % 2 ^ 32

/-- `fcgi_fd_matrix_create`; `granted` is the answer to its memory request. -/
def fcgiFdMatrixCreate (granted : Bool) (config : FcgiConfig) (workerCount : Nat) : FcgiFdMatrix :=
  if granted then
    let n := config.servers.length
    { serverCount := n
      threadCount := workerCount
      counts := some (config.locations.foldl (fun counts loc =>
        if locFdCount config loc < workerCount then
          distributeConnsFallback n workerCount loc.serverIds counts
        else distributeConnsNormal config n workerCount loc.serverIds counts)
        (List.replicate (n * workerCount) 0)) }
  else { serverCount := 0, threadCount := 0, counts := none }

/-- `fcgi_fd_matrix_get`. -/
def fcgiFdMatrixGet (fdm : FcgiFdMatrix) (threadId serverId : Nat) : Nat :=
  match fdm.counts with
  | some counts => (counts.getD (threadId * fdm.serverCount + serverId) 0).toNat
  | none => 0

/-- `fcgi_fd_matrix_thread_sum`. -/
def fcgiFdMatrixThreadSum (fdm : FcgiFdMatrix) (threadId : Nat) : Nat :=
  ((List.range fdm.serverCount).map (fcgiFdMatrixGet fdm threadId)).sum % 2 ^ 32

/-- `server_location_id`: the last location that names the server. -/
def serverLocationId (config : FcgiConfig) (server : Nat) : Option Nat :=
  (List.range config.locations.length).reverse.find? fun i =>
    ((config.locations.getD i {}).serverIds.contains server)

/-! ## the list of a thread -/

/-- The connections of a thread to one server in `fcgi_fd_list_init`: with any, the server
needs a location. -/
def fcgiFdListRow (fdm : FcgiFdMatrix) (threadId : Nat) (config : FcgiConfig) (i : Nat) : Option (List FcgiFd) := do
  let srv ← config.servers[i]?
  let type := if srv.path.isSome then FcgiFdType.unix else .inet
  let count := fcgiFdMatrixGet fdm threadId i
  match serverLocationId config i with
  | some loc => some (List.replicate count (fcgiFdInit type i loc))
  | none => if count = 0 then some [] else none

/-- The loop of `fcgi_fd_list_init` over the servers: whether no check failed, and the
entries stored. -/
def fcgiFdListRows (fdm : FcgiFdMatrix) (threadId : Nat) (config : FcgiConfig) :
    List Nat → List FcgiFd → Bool × List FcgiFd
  | [], fds => (true, fds)
  | i :: is, fds =>
      match fcgiFdListRow fdm threadId config i with
      | some row => fcgiFdListRows fdm threadId config is (fds ++ row)
      | none => (false, fds)

/-- What `fcgi_fd_list_init` returns, the number in the list, how many entries were
allocated, and those stored, from the first on. -/
structure FcgiFdListRet where
  ret : Int
  n : Int
  allocated : Nat
  stores : List FcgiFd
deriving DecidableEq, Repr

/-- `fcgi_fd_list_init`, with its memory: the number of entries is an `unsigned int`, and
that of the list an `int`. -/
def fcgiFdListInitMem (fdm : FcgiFdMatrix) (threadId : Nat) (config : FcgiConfig) : FcgiFdListRet :=
  let fdCount := fcgiFdMatrixThreadSum fdm threadId
  let rows := fcgiFdListRows fdm threadId config (List.range fdm.serverCount) []
  if rows.1 = true ∧ rows.2.length % 2 ^ 32 = fdCount then
    { ret := 0, n := toInt fdCount, allocated := fdCount, stores := rows.2 }
  else { ret := -1, n := 0, allocated := fdCount, stores := rows.2 }

/-- The list, where it was made and no entry is stored outside its memory. -/
def FcgiFdListRet.list (r : FcgiFdListRet) : Option (List FcgiFd) :=
  if r.ret = 0 ∧ r.stores.length ≤ r.allocated then some r.stores else none

/-- The list of a thread. -/
def fcgiFdListInit (fdm : FcgiFdMatrix) (threadId : Nat) (config : FcgiConfig) : Option (List FcgiFd) :=
  (fcgiFdListInitMem fdm threadId config).list

/-- A list that was made has the entries of its row, as many as the row says. -/
theorem fcgiFdListInit_eq_some {fdm : FcgiFdMatrix} {threadId : Nat} {config : FcgiConfig} {fds : List FcgiFd}
    (h : fcgiFdListInit fdm threadId config = some fds) :
    fcgiFdListRows fdm threadId config (List.range fdm.serverCount) [] = (true, fds) ∧
      fds.length = fcgiFdMatrixThreadSum fdm threadId := by
  unfold fcgiFdListInit FcgiFdListRet.list fcgiFdListInitMem at h
  generalize fcgiFdListRows fdm threadId config (List.range fdm.serverCount) [] = rows at h
  obtain ⟨through, stores⟩ := rows
  by_cases hmade : through = true ∧ stores.length % 2 ^ 32 = fcgiFdMatrixThreadSum fdm threadId
  · simp only [hmade, and_self, if_true, true_and] at h
    by_cases hinside : stores.length ≤ fcgiFdMatrixThreadSum fdm threadId
    · rw [if_pos hinside] at h
      obtain rfl := Option.some.inj h
      have hmod := Nat.mod_le stores.length (2 ^ 32)
      exact ⟨by rw [hmade.1], by omega⟩
    · rw [if_neg hinside] at h
      contradiction
  · simp only [hmade, if_false] at h
    rw [if_neg fun hret => absurd hret.1 (by decide)] at h
    contradiction

end Monkey.Fastcgi
