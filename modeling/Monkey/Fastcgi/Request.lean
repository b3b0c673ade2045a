import Monkey.Fastcgi.Chunk

/-!
# Monkey.Fastcgi.Request

The requests of a worker of the FastCGI plugin (`request.c`): the state machine of
one request, the list of its slots with the clock hands of the locations, and the
cache in front of the searches by descriptor.

A pointer to a request is its index in the list.

A state is only entered from the states that `request_set_state` lets through.  The number of
slots is a power of two, whose mask turns the hands round; the loops over the slots are scans of
the positions behind the hand (`clockwise`), and that these are the loops of the source is shown
in `Monkey.Fastcgi.Fairness`.
-/

namespace Monkey.Fastcgi

/-! ## powers of two -/

/-- `next_power_of_2`. -/
def nextPowerOf2 (v : UInt16) : UInt16 :=
  let v := v - 1
  let v := v ||| (v >>> 1)
  let v := v ||| (v >>> 2)
  let v := v ||| (v >>> 4)
  let v := v ||| (v >>> 8)
  v + 1

/-- `is_power_of_2`. -/
def isPowerOf2 (v : UInt16) : Bool := v != 0 && (v &&& (v - 1)) == 0

/-! ## requests -/

/-- `enum request_state`. -/
inductive RequestState
  | available | assigned | sent | streamClosed | ended | finished | failed
deriving DecidableEq, Repr

/-- What the plugin reads of the client session and of the session request of a
client: the texts of its pointers, the printed addresses of its socket with their
ports, and the rows of the header table from `init` to `end`. -/
structure ClientRequest where
  hostSignature : Bytes := []
  documentroot : Bytes := []
  protocol : Bytes := []
  hostAlias : Bytes := []
  sockname : Option (Bytes × UInt16) := none
  realPath : Bytes := []
  uriProcessed : Bytes := []
  method : Bytes := []
  peername : Option (Bytes × UInt16) := none
  uri : Bytes := []
  queryString : Bytes := []
  contentType : Bytes := []
  contentLength : Int := 0
  headersToc : List Bytes := []
  data : Bytes := []
deriving DecidableEq, Repr

/-- `struct request`; the flags are `REQ_SLEEPING` and `REQ_HEADERS_SENT`, `client`
stands for `cs` and `sr`.  These point to what the core frees when the client is gone, and the
plugin must have let go of them by then: whether a slot still has them is what the properties
about clients that hang up ask. -/
structure Request where
  state : RequestState := .available
  sleeping : Bool := false
  headersSent : Bool := false
  fd : Int := -1
  fcgiFd : Int := -1
  clockId : UInt16 := 0
  client : Option ClientRequest := none
  iov : ChunkIov := {}
deriving DecidableEq, Repr

/-- `request_reset`. -/
def requestReset (req : Request) : Request :=
  { req with
    state := .available, sleeping := false, headersSent := false, fd := -1, fcgiFd := -1,
    clockId := 0, iov := chunkIovReset req.iov }

/-- The states from which `request_set_state` accepts a transition. -/
def canFollow : RequestState → RequestState → Bool
  | .available, s => s == .finished
  | .assigned, s => s == .available || s == .finished
  | .sent, s => s == .assigned
  | .streamClosed, s => s == .sent
  | .ended, s => s == .streamClosed || s == .failed || s == .sent
  | .finished, s => s == .ended
  | .failed, _ => true

/-- `request_set_state`. -/
def requestSetState (req : Request) (state : RequestState) : Option Request :=
  if canFollow state req.state then
    some (if state = .available then requestReset req else { req with state := state })
  else none

/-- `request_assign`. -/
def requestAssign (req : Request) (fd : Int) (clockId : UInt16) (client : ClientRequest) :
    Option Request :=
  (requestSetState req .assigned).map fun req =>
    { req with fd := fd, clockId := clockId, client := some client }

/-- `request_set_fcgi_fd`. -/
def requestSetFcgiFd (req : Request) (fcgiFd : Int) : Request := { req with fcgiFd := fcgiFd }

/-- `request_recycle`. -/
def requestRecycle (req : Request) : Request := requestReset req

/-- `request_add_pkg`, with the body of a record that is complete: the vector grows
by two when it is full. -/
def requestAddPkg (req : Request) (body : Bytes) : Option Request :=
  if req.state = .sent then
    match chunkIovAdd req.iov body with
    | some iov => some { req with iov := iov }
    | none =>
        ((chunkIovResize req.iov (req.iov.size + 2)).bind (chunkIovAdd · body)).map fun iov =>
          { req with iov := iov }
  else none

/-! ## the cache -/

/-- `struct req_cache_entry`; `fcgi_fd` is not initialised. -/
structure ReqCacheEntry where
  req : Option Nat := none
  fd : Int := -1
  fcgiFd : Option Int := none
  counter : Int := 0
deriving DecidableEq, Repr

/-- `REQ_CACHE_SIZE`. -/
def reqCacheSize : Nat := 32

/-- `struct request_cache`; its mask is that of its size. -/
structure RequestCache where
  entries : List ReqCacheEntry
  clockHand : Nat := 0
deriving DecidableEq, Repr

/-- `request_cache_init`. -/
def requestCacheInit : RequestCache := { entries := List.replicate reqCacheSize {} }

/-- The positions a `do … while (i != clock)` loop visits in `size` slots: from the
one after the clock hand on, round to the hand. -/
def clockwise (clock size : Nat) : List Nat := (List.range size).map fun k => (clock + 1 + k) % size

/-- The loop of `request_cache_add`: the entry tried is always the second one. -/
def cacheAddLoop (index : Nat) (req : Request) : List Nat → RequestCache → RequestCache
  | [], cache => cache
  | i :: rest, cache =>
      let e := cache.entries.getD 1 {}
      if e.counter > 0 then
        cacheAddLoop index req rest
          { cache with entries := cache.entries.set 1 { e with counter := e.counter - 1 } }
      else
        { entries := cache.entries.set 1
            { req := some index, fd := req.fd, fcgiFd := some req.fcgiFd, counter := 1 }
          clockHand := i }

/-- `request_cache_add`. -/
def requestCacheAdd (cache : RequestCache) (index : Nat) (req : Request) : RequestCache :=
  cacheAddLoop index req (clockwise cache.clockHand reqCacheSize) cache

/-- `request_cache_hit`. -/
def requestCacheHit (cache : RequestCache) (index : Nat) (req : Request) : RequestCache :=
  match (clockwise cache.clockHand reqCacheSize).find? fun i =>
      (cache.entries.getD i {}).req == some index with
  | some i =>
      let e := cache.entries.getD i {}
      let e := { e with fd := req.fd, fcgiFd := some req.fcgiFd, counter := e.counter + 1 }
      { cache with entries := cache.entries.set i e }
  | none => requestCacheAdd cache index req

/-- `request_cache_search`: an entry whose request moved on is given up.  An entry
without a request has the descriptor `-1`, which no event has. -/
def requestCacheSearch (rs : List Request) (cache : RequestCache) (fd : Int) :
    RequestCache × Option Nat :=
  match (clockwise cache.clockHand reqCacheSize).find? fun i => (cache.entries.getD i {}).fd == fd with
  | none => (cache, none)
  | some i =>
      let e := cache.entries.getD i {}
      match e.req.filter fun r => (rs.getD r {}).fd == fd with
      | some r => ({ cache with entries := cache.entries.set i { e with counter := e.counter + 1 } }, some r)
      | none => ({ cache with entries := cache.entries.set i { e with counter := 0, fd := -1 } }, none)

/-! ## the list -/

/-- `struct request_list`: the sizes are those of the lists. -/
structure RequestList where
  cache : RequestCache := requestCacheInit
  idOffset : UInt16
  clockHands : List Nat := []
  rs : List Request
deriving DecidableEq, Repr

/-- `request_list_init`. -/
def requestListInit (clockCount idOffset size : UInt16) : Option RequestList :=
  if isPowerOf2 size then
    some { idOffset := idOffset, clockHands := List.replicate clockCount.toNat 0,
           rs := List.replicate size.toNat {} }
  else none

/-- `get_clock_hand`. -/
def getClockHand (rl : RequestList) (clockId : UInt16) : Nat := rl.clockHands.getD clockId.toNat 0

/-- `set_clock_hand`. -/
def setClockHand (rl : RequestList) (clockId : UInt16) (hand : Nat) : RequestList :=
  { rl with clockHands := rl.clockHands.set clockId.toNat hand }

/-- The first slot from a clock hand on that a loop over the list accepts. -/
def scanFrom (rl : RequestList) (clockId : UInt16) (p : Request → Bool) : Option Nat :=
  (clockwise (getClockHand rl clockId) rl.rs.length).find? fun i => p (rl.rs.getD i {})

/-- `request_list_next_available`. -/
def requestListNextAvailable (rl : RequestList) (clockId : UInt16) : Option Nat :=
  scanFrom rl clockId (·.state == .available)

/-- `request_list_next_assigned`. -/
def requestListNextAssigned (rl : RequestList) (clockId : UInt16) : RequestList × Option Nat :=
  match scanFrom rl clockId fun r => r.state == .assigned && r.clockId == clockId with
  | none => (rl, none)
  | some i =>
      let rl := { rl with cache := requestCacheHit rl.cache i (rl.rs.getD i {}) }
      (setClockHand rl clockId i, some i)

/-- `request_list_get_by_fd`. -/
def requestListGetByFd (rl : RequestList) (fd : Int) : RequestList × Option Nat :=
  match requestCacheSearch rl.rs rl.cache fd with
  | (cache, some r) => ({ rl with cache := cache }, some r)
  | (cache, none) =>
      let rl := { rl with cache := cache }
      match scanFrom rl 0 (·.fd == fd) with
      | none => (rl, none)
      | some i => ({ rl with cache := requestCacheAdd rl.cache i (rl.rs.getD i {}) }, some i)

/-- `request_list_get`. -/
def requestListGet (rl : RequestList) (reqId : UInt16) : RequestList × Option Nat :=
  let real := (reqId - rl.idOffset).toNat
  if reqId ≥ rl.idOffset ∧ real < rl.rs.length then
    ({ rl with cache := requestCacheHit rl.cache real (rl.rs.getD real {}) }, some real)
  else (rl, none)

/-- `request_list_index_of`; `0` for a pointer outside the list. -/
def requestListIndexOf (rl : RequestList) (r : Nat) : UInt16 :=
  if r ≤ rl.rs.length then rl.idOffset + UInt16.ofNat r else 0

/-! ## what the searches leave alone -/

theorem requestListGet_rs (rl : RequestList) (reqId : UInt16) :
    (requestListGet rl reqId).1.rs = rl.rs := by
  simp only [requestListGet]
  split <;> rfl

theorem requestListGet_lt {rl : RequestList} {reqId : UInt16} {r : Nat}
    (h : (requestListGet rl reqId).2 = some r) : r < rl.rs.length := by
  simp only [requestListGet] at h
  split at h
  · next hc =>
      obtain rfl := Option.some.inj h
      exact hc.2
  · contradiction

theorem requestListNextAssigned_rs (rl : RequestList) (clockId : UInt16) :
    (requestListNextAssigned rl clockId).1.rs = rl.rs := by
  unfold requestListNextAssigned
  split <;> rfl

theorem requestListGetByFd_rs (rl : RequestList) (fd : Int) : (requestListGetByFd rl fd).1.rs = rl.rs := by
  simp only [requestListGetByFd]
  split
  · rfl
  · split <;> rfl

/-! ## what the searches find -/

/-- The loops visit every slot. -/
theorem mem_clockwise {clock size i : Nat} : i ∈ clockwise clock size ↔ i < size := by
  unfold clockwise
  constructor
  · intro h
    obtain ⟨k, hk, rfl⟩ := List.mem_map.mp h
    exact Nat.mod_lt _ (Nat.zero_lt_of_lt (List.mem_range.mp hk))
  · intro hi
    have hpos : 0 < size := Nat.zero_lt_of_lt hi
    have hclock := Nat.mod_lt (clock + 1) hpos
    refine List.mem_map.mpr ⟨(i + size - (clock + 1) % size) % size, List.mem_range.mpr (Nat.mod_lt _ hpos), ?_⟩
    rw [Nat.add_mod_mod, ← Nat.mod_add_mod, show (clock + 1) % size + (i + size - (clock + 1) % size) = i + size by omega,
      Nat.add_mod_right, Nat.mod_eq_of_lt hi]

theorem scanFrom_eq_some {rl : RequestList} {clockId : UInt16} {p : Request → Bool} {i : Nat}
    (h : scanFrom rl clockId p = some i) : i < rl.rs.length ∧ p (rl.rs.getD i {}) = true := by
  have hfound := List.find?_some h
  exact ⟨mem_clockwise.mp (List.mem_of_find?_eq_some h), hfound⟩

theorem scanFrom_eq_none {rl : RequestList} {clockId : UInt16} {p : Request → Bool}
    (h : scanFrom rl clockId p = none) {i : Nat} (hi : i < rl.rs.length) : p (rl.rs.getD i {}) = false := by
  simpa using List.find?_eq_none.mp h i (mem_clockwise.mpr hi)

theorem requestListNextAssigned_some {rl : RequestList} {clockId : UInt16} {r : Nat}
    (h : (requestListNextAssigned rl clockId).2 = some r) :
    r < rl.rs.length ∧ (rl.rs.getD r {}).state = .assigned ∧ (rl.rs.getD r {}).clockId = clockId := by
  unfold requestListNextAssigned at h
  split at h
  · contradiction
  · next i hi =>
      obtain rfl := Option.some.inj h
      obtain ⟨hlt, hp⟩ := scanFrom_eq_some hi
      simp only [Bool.and_eq_true, beq_iff_eq] at hp
      exact ⟨hlt, hp⟩

/-- A request found in the cache has the descriptor, whatever its entry says. -/
theorem requestCacheSearch_some {rs : List Request} {cache : RequestCache} {fd : Int} {r : Nat}
    (h : (requestCacheSearch rs cache fd).2 = some r) : (rs.getD r {}).fd = fd := by
  simp only [requestCacheSearch] at h
  split at h
  · contradiction
  · split at h
    · next hreq =>
        obtain rfl := Option.some.inj h
        simpa using (Option.filter_eq_some_iff.mp hreq).2
    · contradiction

theorem requestListGetByFd_some {rl : RequestList} {fd : Int} {r : Nat}
    (h : (requestListGetByFd rl fd).2 = some r) : (rl.rs.getD r {}).fd = fd := by
  simp only [requestListGetByFd] at h
  split at h
  · next hcache =>
      obtain rfl := Option.some.inj h
      exact requestCacheSearch_some (congrArg Prod.snd hcache)
  · split at h
    · contradiction
    · next hscan =>
        obtain rfl := Option.some.inj h
        simpa using (scanFrom_eq_some hscan).2

theorem requestListGetByFd_none {rl : RequestList} {fd : Int} (h : (requestListGetByFd rl fd).2 = none)
    {i : Nat} (hi : i < rl.rs.length) : (rl.rs.getD i {}).fd ≠ fd := by
  simp only [requestListGetByFd] at h
  split at h
  · contradiction
  · split at h
    · next hscan => simpa using scanFrom_eq_none hscan hi
    · contradiction

end Monkey.Fastcgi
