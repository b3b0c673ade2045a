import Monkey.Lib.Keyed
import Monkey.Lib.Run

/-!
# Monkey.Epoll

The epoll states of a worker thread (`struct epoll_state_index`): one record for
every descriptor of an epoll instance, kept in step with what was last asked of
the kernel, so that a descriptor put to sleep is woken up with the events it had.

Entries move between the two queues of the index; `slot` tells them apart.  The
index keeps a log of its `epoll_ctl` calls, newest first.
-/

namespace Monkey

/-! ## masks -/

/-- `MK_EPOLL_READ` to `MK_EPOLL_WAKEUP`. -/
inductive EpollMode
  | read | write | rw | sleep | wakeup
deriving DecidableEq, Repr

def epollIn : UInt32 := 0x1
def epollOut : UInt32 := 0x4
def epollErr : UInt32 := 0x8
def epollHup : UInt32 := 0x10
def epollRdhup : UInt32 := 0x2000

/-- `EPOLLET`, which is also `MK_EPOLL_EDGE_TRIGGERED`. -/
def epollEt : UInt32 := 0x80000000

/-- `MK_EPOLL_LEVEL_TRIGGERED`. -/
def mkEpollLevelTriggered : UInt32 := 2

/-- The mask of `mk_epoll_add`; a behavior is an `int`, known by its bits. -/
def addEvents (mode : EpollMode) (behavior : UInt32) : UInt32 :=
  let events := epollErr ||| epollHup ||| epollRdhup
  let events := if behavior = epollEt then events ||| epollEt else events
  match mode with
  | .read => events ||| epollIn
  | .write => events ||| epollOut
  | .rw => events ||| epollIn ||| epollOut
  | .sleep => 0
  | .wakeup => events

/-- The mask of `mk_epoll_change_mode` before the edge trigger, unless it wakes up. -/
def modeEvents : EpollMode → UInt32
  | .read => epollErr ||| epollHup ||| epollIn
  | .write => epollErr ||| epollHup ||| epollOut
  | .rw => epollErr ||| epollHup ||| epollIn ||| epollOut
  | .sleep => 0
  | .wakeup => epollErr ||| epollHup

def withTrigger (behavior events : UInt32) : UInt32 :=
  if behavior = epollEt then events ||| epollEt else events

/-! ## the index -/

/-- `struct epoll_state`; the behavior is cut to eight bits. -/
structure EpollState where
  slot : Nat
  efd : Int := 0
  fd : Int := 0
  mode : EpollMode := .read
  behavior : UInt8 := 0
  events : UInt32 := 0
deriving DecidableEq, Repr

def EpollState.key (es : EpollState) : Int × Int := (es.efd, es.fd)

/-- A call of `epoll_ctl`: an added or modified descriptor with its mode and mask,
and whether it was recorded; or a deleted one. -/
inductive EpollCall
  | ctl (efd fd : Int) (mode : EpollMode) (events : UInt32) (recorded : Bool)
  | del (efd fd : Int)
deriving DecidableEq, Repr

/-- `struct epoll_state_index` and the log of the thread.  The
source takes the entries from blocks of memory that it never gives back; here an entry is its
record, and the two queues together have all of them.  The log is not in the source: it is what
the kernel has been asked. -/
structure EpollIndex where
  size : Nat
  busyQueue : List EpollState := []
  avQueue : List EpollState := []
  log : List EpollCall := []
deriving DecidableEq, Repr

/-- `MK_EPOLL_STATE_INDEX_CHUNK`. -/
def mkEpollStateIndexChunk : Nat := 64

/-- A chunk of new entries behind the first `size` ones. -/
def newStates (size : Nat) : List EpollState :=
  (List.range' size mkEpollStateIndexChunk).map fun i => { slot := i }

/-- `mk_epoll_state_init`. -/
def mkEpollStateInit : EpollIndex := { size := mkEpollStateIndexChunk, avQueue := newStates 0 }

/-- `mk_epoll_state_get`. -/
def mkEpollStateGet (index : EpollIndex) (efd fd : Int) : Option EpollState :=
  index.busyQueue.find? fun es => es.key == (efd, fd)

/-- The index with an available entry. -/
def EpollIndex.grow (index : EpollIndex) : EpollIndex :=
  if index.avQueue = [] then
    { index with
      size := index.size + mkEpollStateIndexChunk, avQueue := newStates index.size }
  else index

/-- A new entry is the first available one, linked to the end of the busy queue. -/
def EpollIndex.take (index : EpollIndex) (efd fd : Int) (mode : EpollMode) (behavior events : UInt32) :
    EpollIndex :=
  match index.avQueue with
  | [] => index
  | es :: av =>
      { index with
        avQueue := av
        busyQueue := index.busyQueue ++
          [{ es with efd := efd, fd := fd, mode := mode, behavior := behavior.toUInt8, events := events }] }

/-- The entry of a descriptor updated: sleeping keeps events and behavior. -/
def EpollState.update (es : EpollState) (mode : EpollMode) (behavior events : UInt32) : EpollState :=
  if mode ≠ .sleep then { es with mode := mode, behavior := behavior.toUInt8, events := events }
  else { es with mode := mode }

/-- `mk_epoll_state_set`. -/
def mkEpollStateSet (index : EpollIndex) (efd fd : Int) (mode : EpollMode) (behavior events : UInt32) :
    EpollIndex :=
  match mkEpollStateGet index efd fd with
  | none => index.grow.take efd fd mode behavior events
  | some _ =>
      { index with
        busyQueue := index.busyQueue.replaceF fun es =>
          if es.key == (efd, fd) then some (es.update mode behavior events) else none }

/-- `mk_epoll_state_del`. -/
def mkEpollStateDel (index : EpollIndex) (efd fd : Int) : EpollIndex :=
  match mkEpollStateGet index efd fd with
  | none => index
  | some es =>
      { index with
        busyQueue := index.busyQueue.eraseP fun es => es.key == (efd, fd)
        avQueue := index.avQueue ++ [es] }

/-! ## the calls -/

def EpollIndex.logged (index : EpollIndex) (call : EpollCall) : EpollIndex :=
  { index with log := call :: index.log }

/-- `mk_epoll_add`; `refused` is an error of the kernel other than `EEXIST`. -/
def mkEpollAdd (index : EpollIndex) (efd fd : Int) (initMode : EpollMode) (behavior : UInt32)
    (refused : Bool) : EpollIndex :=
  let events := addEvents initMode behavior
  let called := index.logged (.ctl efd fd initMode events (!refused))
  if refused then called else mkEpollStateSet called efd fd initMode behavior events

/-- `mk_epoll_del`. -/
def mkEpollDel (index : EpollIndex) (efd fd : Int) : EpollIndex :=
  mkEpollStateDel (index.logged (.del efd fd)) efd fd

/-- `mk_epoll_change_mode`: the new state is recorded whatever the kernel says.  To
wake up a descriptor that does not sleep ends the server (`none`). -/
def mkEpollChangeMode (index : EpollIndex) (efd fd : Int) (mode : EpollMode) (behavior : UInt32) :
    Option EpollIndex :=
  let record := fun behavior events =>
    let events := withTrigger behavior events
    mkEpollStateSet (index.logged (.ctl efd fd mode events true)) efd fd mode behavior events
  match mode with
  | .wakeup =>
      match mkEpollStateGet index efd fd with
      | some state => if state.mode = .sleep then some (record state.behavior.toUInt32 state.events) else none
      | none => none
  | mode => some (record behavior (modeEvents mode))

/-- The calls of a worker thread. -/
inductive EpollOp
  | add (efd fd : Int) (mode : EpollMode) (behavior : UInt32) (refused : Bool)
  | changeMode (efd fd : Int) (mode : EpollMode) (behavior : UInt32)
  | del (efd fd : Int)

def EpollIndex.step (index : EpollIndex) : EpollOp → Option EpollIndex
  | .add efd fd mode behavior refused => some (mkEpollAdd index efd fd mode behavior refused)
  | .changeMode efd fd mode behavior => mkEpollChangeMode index efd fd mode behavior
  | .del efd fd => some (mkEpollDel index efd fd)

def EpollIndex.Step (index : EpollIndex) (op : EpollOp) (index' : EpollIndex) : Prop :=
  index.step op = some index'

/-! ## what the log says -/

/-- The operations recorded in the state of a descriptor, newest first: those since
the state was last deleted. -/
def recordings (efd fd : Int) : List EpollCall → List (EpollMode × UInt32)
  | [] => []
  | .del e f :: log => if (e, f) = (efd, fd) then [] else recordings efd fd log
  | .ctl e f mode events recorded :: log =>
      if (e, f) = (efd, fd) ∧ recorded = true then (mode, events) :: recordings efd fd log
      else recordings efd fd log

/-- The state of the descriptor was created by an operation other than a sleep. -/
def createdAwake (efd fd : Int) (log : List EpollCall) : Prop :=
  ∃ op ∈ (recordings efd fd log).getLast?, op.1 ≠ .sleep

/-- The mask of the last operation that was no sleep. -/
def lastAwake (efd fd : Int) (log : List EpollCall) : Option UInt32 :=
  ((recordings efd fd log).find? fun op => op.1 ≠ .sleep).map (·.2)

/-- The mask a state holds after its operations: that of the last one that was no
sleep, or of the sleep that created it. -/
def savedEvents (ops : List (EpollMode × UInt32)) : Option UInt32 :=
  match ops.find? fun op => op.1 ≠ .sleep with
  | some op => some op.2
  | none => ops.getLast?.map (·.2)

/-- A new operation on a state: sleeping keeps the mask it finds. -/
theorem savedEvents_cons (mode : EpollMode) (events : UInt32) (ops : List (EpollMode × UInt32)) :
    savedEvents ((mode, events) :: ops) =
      if mode ≠ .sleep then some events else some ((savedEvents ops).getD events) := by
  unfold savedEvents
  by_cases hmode : mode = .sleep
  · rw [List.find?_cons_of_neg (by simpa using hmode), if_neg (not_not.mpr hmode)]
    cases ops with
    | nil => rfl
    | cons op ops =>
        cases List.find? (fun op => decide (op.1 ≠ .sleep)) (op :: ops) with
        | some op' => rfl
        | none => simp [List.getLast?_eq_some_getLast]
  · rw [List.find?_cons_of_pos (by simpa using hmode), if_pos hmode]

/-! ## the invariant -/

/-- The queues hold the entries of the index once each, no descriptor has two states,
and every state holds the mask its operations leave. -/
structure EpollOk (index : EpollIndex) : Prop where
  slots : ((index.busyQueue ++ index.avQueue).map (·.slot)).Perm (List.range index.size)
  keys : (index.busyQueue.map (·.key)).Nodup
  states : ∀ efd fd, (mkEpollStateGet index efd fd).map (·.events) =
    savedEvents (recordings efd fd index.log)

theorem EpollOk.init : EpollOk mkEpollStateInit := by
  refine ⟨?_, List.nodup_nil, fun efd fd => rfl⟩
  simp [mkEpollStateInit, newStates, Function.comp_def, List.range_eq_range']

@[simp]
theorem EpollState.update_key (es : EpollState) (mode : EpollMode) (behavior events : UInt32) :
    (es.update mode behavior events).key = es.key := by
  unfold EpollState.update
  split <;> rfl

@[simp]
theorem EpollState.update_slot (es : EpollState) (mode : EpollMode) (behavior events : UInt32) :
    (es.update mode behavior events).slot = es.slot := by
  unfold EpollState.update
  split <;> rfl

/-- Growing adds new entries. -/
theorem EpollIndex.grow_slots {index : EpollIndex}
    (h : ((index.busyQueue ++ index.avQueue).map (·.slot)).Perm (List.range index.size)) :
    ((index.grow.busyQueue ++ index.grow.avQueue).map (·.slot)).Perm
      (List.range index.grow.size) := by
  unfold EpollIndex.grow
  split
  · next hav =>
      rw [hav, List.append_nil] at h
      simp only [List.map_append, newStates, List.map_map, Function.comp_def, List.map_id']
      rw [List.range_eq_range', ← List.range'_append_1, Nat.zero_add, ← List.range_eq_range']
      exact h.append_right _
  · exact h

theorem EpollIndex.grow_busyQueue (index : EpollIndex) :
    index.grow.busyQueue = index.busyQueue := by
  unfold EpollIndex.grow
  split <;> rfl

theorem EpollIndex.grow_avQueue (index : EpollIndex) : ∃ es av, index.grow.avQueue = es :: av := by
  unfold EpollIndex.grow
  split
  · exact ⟨_, _, rfl⟩
  · next hav => exact List.exists_cons_of_ne_nil hav

/-- What `mk_epoll_state_set` does to the queues. -/
theorem mkEpollStateSet_slots {index : EpollIndex} (efd fd : Int) (mode : EpollMode)
    (behavior events : UInt32)
    (h : ((index.busyQueue ++ index.avQueue).map (·.slot)).Perm (List.range index.size)) :
    let index' := mkEpollStateSet index efd fd mode behavior events
    ((index'.busyQueue ++ index'.avQueue).map (·.slot)).Perm (List.range index'.size) := by
  simp only [mkEpollStateSet]
  split
  · obtain ⟨es, av, hav⟩ := index.grow_avQueue
    have hgrow := index.grow_slots h
    rw [EpollIndex.take, hav]
    rw [hav] at hgrow
    refine List.Perm.trans ?_ hgrow
    simp
  · rw [List.map_append, map_replaceF_key, ← List.map_append]
    · exact h
    · intro x y hxy
      split at hxy
      · obtain rfl := Option.some.inj hxy
        exact x.update_slot mode behavior events
      · contradiction

/-- What `mk_epoll_state_set` does to the descriptors with a state. -/
theorem mkEpollStateSet_keys {index : EpollIndex} (efd fd : Int) (mode : EpollMode)
    (behavior events : UInt32) (h : (index.busyQueue.map (·.key)).Nodup) :
    ((mkEpollStateSet index efd fd mode behavior events).busyQueue.map (·.key)).Nodup := by
  unfold mkEpollStateSet
  split
  · next hnone =>
      obtain ⟨es, av, hav⟩ := index.grow_avQueue
      have hnew : (efd, fd) ∉ index.busyQueue.map EpollState.key := find?_key_eq_none.mp hnone
      rw [EpollIndex.take, hav]
      simp only [EpollIndex.grow_busyQueue, List.map_append, List.map_cons, List.map_nil]
      exact h.append (List.nodup_singleton _) (List.disjoint_singleton.mpr hnew)
  · rw [map_replaceF_key]
    · exact h
    · intro x y hxy
      split at hxy
      · obtain rfl := Option.some.inj hxy
        exact x.update_key mode behavior events
      · contradiction

/-- What `mk_epoll_state_set` does to the states. -/
theorem mkEpollStateSet_state (index : EpollIndex) (efd fd : Int) (mode : EpollMode)
    (behavior events : UInt32) : ∃ slot, ∀ efd' fd',
    mkEpollStateGet (mkEpollStateSet index efd fd mode behavior events) efd' fd' =
      if (efd', fd') = (efd, fd) then
        some (((mkEpollStateGet index efd fd).map (·.update mode behavior events)).getD
          { slot := slot, efd := efd, fd := fd, mode := mode, behavior := behavior.toUInt8, events := events })
      else mkEpollStateGet index efd' fd' := by
  unfold mkEpollStateSet
  cases hget : mkEpollStateGet index efd fd with
  | none =>
      obtain ⟨es, av, hav⟩ := index.grow_avQueue
      refine ⟨es.slot, fun efd' fd' => ?_⟩
      simp only [EpollIndex.take, hav, mkEpollStateGet, EpollIndex.grow_busyQueue, List.find?_append]
      by_cases hk : (efd', fd') = (efd, fd)
      · rw [hk]
        rw [mkEpollStateGet] at hget
        rw [hget]
        simp [EpollState.key]
      · rw [if_neg hk, List.find?_cons_of_neg (by simpa [EpollState.key] using Ne.symm hk)]
        simp
  | some es =>
      refine ⟨0, fun efd' fd' => ?_⟩
      simp only [mkEpollStateGet] at hget ⊢
      by_cases hk : (efd', fd') = (efd, fd)
      · rw [hk, find?_replaceF_key fun x => x.update_key mode behavior events, hget, if_pos rfl]
        rfl
      · rw [find?_replaceF_key_of_ne (fun x => x.update_key mode behavior events) hk, if_neg hk]

/-- What it does to the masks. -/
theorem mkEpollStateSet_get (index : EpollIndex) (efd fd : Int) (mode : EpollMode)
    (behavior events : UInt32) (efd' fd' : Int) :
    (mkEpollStateGet (mkEpollStateSet index efd fd mode behavior events) efd' fd').map (·.events) =
      if (efd', fd') = (efd, fd) then
        if mode ≠ .sleep then some events
        else some (((mkEpollStateGet index efd fd).map (·.events)).getD events)
      else (mkEpollStateGet index efd' fd').map (·.events) := by
  obtain ⟨slot, hstate⟩ := mkEpollStateSet_state index efd fd mode behavior events
  rw [hstate]
  split
  · cases mkEpollStateGet index efd fd with
    | none => simp
    | some es =>
        simp only [Option.map_some, Option.getD_some, EpollState.update]
        split <;> rfl
  · rfl

theorem mkEpollStateSet_log (index : EpollIndex) (efd fd : Int) (mode : EpollMode)
    (behavior events : UInt32) :
    (mkEpollStateSet index efd fd mode behavior events).log = index.log := by
  unfold mkEpollStateSet
  split
  · unfold EpollIndex.take EpollIndex.grow
    split <;> split <;> rfl
  · rfl

/-- A recorded call keeps the invariant. -/
theorem EpollOk.record {index : EpollIndex} (h : EpollOk index) (efd fd : Int) (mode : EpollMode)
    (behavior events : UInt32) :
    EpollOk (mkEpollStateSet (index.logged (.ctl efd fd mode events true)) efd fd mode behavior
      events) := by
  refine ⟨mkEpollStateSet_slots efd fd mode behavior events h.slots,
    mkEpollStateSet_keys efd fd mode behavior events h.keys, fun efd' fd' => ?_⟩
  rw [mkEpollStateSet_get, mkEpollStateSet_log, EpollIndex.logged, recordings]
  by_cases hk : (efd', fd') = (efd, fd)
  · obtain ⟨rfl, rfl⟩ := Prod.mk.inj hk
    rw [if_pos rfl, if_pos (And.intro (Eq.refl (efd', fd')) (Eq.refl true)), savedEvents_cons]
    split
    · rfl
    · rw [← h.states]
      rfl
  · rw [if_neg hk, if_neg fun hc => hk hc.1.symm]
    exact h.states efd' fd'

theorem EpollOk.add {index : EpollIndex} (h : EpollOk index) (efd fd : Int) (mode : EpollMode)
    (behavior : UInt32) (refused : Bool) : EpollOk (mkEpollAdd index efd fd mode behavior refused) := by
  unfold mkEpollAdd
  cases refused with
  | true =>
      refine ⟨h.slots, h.keys, fun efd' fd' => (h.states efd' fd').trans ?_⟩
      simp [EpollIndex.logged, recordings]
  | false => exact h.record efd fd mode behavior _

theorem EpollOk.del {index : EpollIndex} (h : EpollOk index) (efd fd : Int) :
    EpollOk (mkEpollDel index efd fd) := by
  have hstates : ∀ efd' fd', (efd', fd') ≠ (efd, fd) →
      (mkEpollStateGet index efd' fd').map (·.events) =
        savedEvents (recordings efd' fd' (.del efd fd :: index.log)) := by
    intro efd' fd' hk
    rw [recordings, if_neg (Ne.symm hk)]
    exact h.states efd' fd'
  have hgone : savedEvents (recordings efd fd (.del efd fd :: index.log)) = none := by
    simp [recordings, savedEvents]
  unfold mkEpollDel mkEpollStateDel
  cases hget : mkEpollStateGet (index.logged (.del efd fd)) efd fd with
  | none =>
      refine ⟨h.slots, h.keys, fun efd' fd' => ?_⟩
      by_cases hk : (efd', fd') = (efd, fd)
      · obtain ⟨rfl, rfl⟩ := Prod.mk.inj hk
        simp only [hget]
        exact hgone.symm
      · exact hstates efd' fd' hk
  | some es =>
      refine ⟨?_, ?_, fun efd' fd' => ?_⟩
      · refine List.Perm.trans ?_ h.slots
        have hperm := ((perm_cons_eraseP_of_find? hget).map (·.slot)).append_right
          (index.avQueue.map (·.slot))
        simp only [List.map_append, List.map_cons, List.map_nil, ← List.append_assoc]
        refine List.Perm.trans ?_ hperm.symm
        exact (List.perm_append_singleton _ _)
      · simp only [map_eraseP_key]
        exact h.keys.erase _
      · by_cases hk : (efd', fd') = (efd, fd)
        · obtain ⟨rfl, rfl⟩ := Prod.mk.inj hk
          simp only [mkEpollStateGet]
          rw [EpollIndex.logged, find?_eraseP_key h.keys]
          exact hgone.symm
        · simp only [mkEpollStateGet]
          rw [EpollIndex.logged, find?_eraseP_key_of_ne hk]
          exact hstates efd' fd' hk

/-- The behavior of a state is too narrow for the edge trigger, which only its mask keeps. -/
theorem withTrigger_toUInt32 (behavior : UInt8) (events : UInt32) :
    withTrigger behavior.toUInt32 events = events := by
  have hbehavior : behavior.toUInt32 ≠ epollEt := by
    intro h
    have hlt := behavior.toNat_lt
    have hnat : behavior.toNat = 0x80000000 := by
      rw [← UInt8.toNat_toUInt32, h]
      rfl
    omega
  rw [withTrigger, if_neg hbehavior]

/-- What `mk_epoll_change_mode` asks of the kernel and records. -/
theorem mkEpollChangeMode_cases {index index' : EpollIndex} {efd fd : Int} {mode : EpollMode}
    {behavior : UInt32} (h : mkEpollChangeMode index efd fd mode behavior = some index') :
    ∃ behavior' events,
      index' = mkEpollStateSet (index.logged (.ctl efd fd mode events true)) efd fd mode behavior'
        events ∧
      (mode = .wakeup → ∃ state, mkEpollStateGet index efd fd = some state ∧
        events = state.events) := by
  unfold mkEpollChangeMode at h
  cases mode with
  | wakeup =>
      cases hget : mkEpollStateGet index efd fd with
      | none => simp [hget] at h
      | some state =>
          simp only [hget, Option.ite_none_right_eq_some, Option.some.injEq] at h
          refine ⟨_, _, h.2.symm, fun _ => ⟨state, rfl, ?_⟩⟩
          exact withTrigger_toUInt32 state.behavior state.events
  | _ =>
      simp only [Option.some.injEq] at h
      exact ⟨_, _, h.symm, by simp⟩

/-- Every call keeps the invariant. -/
theorem EpollOk.step {index index' : EpollIndex} {op : EpollOp} (h : EpollOk index)
    (hstep : index.Step op index') : EpollOk index' := by
  cases op with
  | add efd fd mode behavior refused =>
      obtain rfl := Option.some.inj hstep
      exact h.add efd fd mode behavior refused
  | changeMode efd fd mode behavior =>
      obtain ⟨behavior', events, rfl, -⟩ := mkEpollChangeMode_cases hstep
      exact h.record efd fd mode behavior' events
  | del efd fd =>
      obtain rfl := Option.some.inj hstep
      exact h.del efd fd

/-! ## the recorded modes -/

/-- The mode recorded for a descriptor. -/
def EpollIndex.modeOf (index : EpollIndex) (efd fd : Int) : Option EpollMode :=
  (mkEpollStateGet index efd fd).map (·.mode)

theorem mkEpollStateSet_modeOf (index : EpollIndex) (efd fd : Int) (mode : EpollMode)
    (behavior events : UInt32) (efd' fd' : Int) :
    (mkEpollStateSet index efd fd mode behavior events).modeOf efd' fd' =
      if (efd', fd') = (efd, fd) then some mode else index.modeOf efd' fd' := by
  obtain ⟨slot, hstate⟩ := mkEpollStateSet_state index efd fd mode behavior events
  rw [EpollIndex.modeOf, hstate]
  split
  · cases mkEpollStateGet index efd fd with
    | none => rfl
    | some es =>
        simp only [Option.map_some, Option.getD_some, EpollState.update]
        split <;> rfl
  · rfl

/-- The descriptor of a call. -/
def EpollOp.key : EpollOp → Int × Int
  | .add efd fd _ _ _ | .changeMode efd fd _ _ | .del efd fd => (efd, fd)

/-- A call leaves the modes of the other descriptors. -/
theorem EpollIndex.step_modeOf_of_ne {index index' : EpollIndex} {op : EpollOp} {efd fd : Int}
    (h : index.step op = some index') (hne : (efd, fd) ≠ op.key) : index'.modeOf efd fd = index.modeOf efd fd := by
  cases op with
  | add efd' fd' mode behavior refused =>
      obtain rfl := Option.some.inj h
      unfold mkEpollAdd
      cases refused with
      | true => rfl
      | false => exact (mkEpollStateSet_modeOf ..).trans (if_neg hne)
  | changeMode efd' fd' mode behavior =>
      obtain ⟨behavior', events, rfl, -⟩ := mkEpollChangeMode_cases h
      exact (mkEpollStateSet_modeOf ..).trans (if_neg hne)
  | del efd' fd' =>
      obtain rfl := Option.some.inj h
      have hne : (efd, fd) ≠ (efd', fd') := hne
      unfold mkEpollDel mkEpollStateDel
      split
      · rfl
      · simp only [EpollIndex.modeOf, mkEpollStateGet, EpollIndex.logged]
        rw [find?_eraseP_key_of_ne hne]

/-- To sleep is recorded. -/
theorem EpollIndex.step_sleep (index : EpollIndex) (efd fd : Int) (behavior : UInt32) :
    ∃ index', index.step (.changeMode efd fd .sleep behavior) = some index' ∧
      index'.modeOf efd fd = some .sleep :=
  ⟨_, rfl, (mkEpollStateSet_modeOf ..).trans (if_pos rfl)⟩

/-- A descriptor that sleeps is woken up. -/
theorem EpollIndex.step_wakeup {index : EpollIndex} {efd fd : Int} (h : index.modeOf efd fd = some .sleep)
    (behavior : UInt32) : ∃ index', index.step (.changeMode efd fd .wakeup behavior) = some index' := by
  obtain ⟨state, hstate, hmode⟩ := Option.map_eq_some_iff.mp h
  refine Option.isSome_iff_exists.mp ?_
  simp only [EpollIndex.step, mkEpollChangeMode, hstate, hmode, if_true]
  rfl

/-- The recorded operations of a state that was created awake and holds a mask. -/
theorem savedEvents_eq_lastAwake {efd fd : Int} {log : List EpollCall}
    (h : createdAwake efd fd log) : savedEvents (recordings efd fd log) = lastAwake efd fd log := by
  obtain ⟨op, hop, hawake⟩ := h
  unfold savedEvents lastAwake
  cases hfind : (recordings efd fd log).find? fun op => op.1 ≠ .sleep with
  | some op' => rfl
  | none =>
      have hnone := List.find?_eq_none.mp hfind op (List.mem_of_mem_getLast? hop)
      simp [hawake] at hnone

/-- In every state the calls of a thread reach, no descriptor has two states, the queues
hold `size` different entries, and a descriptor whose state was created awake is woken
up with the mask of the last operation that was no sleep. -/
theorem wakeup_restores_events {ops : List EpollOp} {index : EpollIndex}
    (h : Run EpollIndex.Step mkEpollStateInit ops index) :
    (index.busyQueue.map (·.key)).Nodup ∧
    ((index.busyQueue ++ index.avQueue).map (·.slot)).Nodup ∧
    (index.busyQueue ++ index.avQueue).length = index.size ∧
    ∀ efd fd behavior index',
      index.step (.changeMode efd fd .wakeup behavior) = some index' →
      createdAwake efd fd index.log →
      ∃ events, lastAwake efd fd index.log = some events ∧
        index'.log = .ctl efd fd .wakeup events true :: index.log := by
  have hok : EpollOk index := h.invariant (fun _ _ _ hs hstep => hs.step hstep) .init
  refine ⟨hok.keys, hok.slots.nodup_iff.mpr List.nodup_range, ?_, ?_⟩
  · simpa using hok.slots.length_eq
  · intro efd fd behavior index' hstep hawake
    change mkEpollChangeMode index efd fd .wakeup behavior = some index' at hstep
    obtain ⟨behavior', events, rfl, hwake⟩ := mkEpollChangeMode_cases hstep
    obtain ⟨state, hstate, rfl⟩ := hwake rfl
    refine ⟨state.events, ?_, mkEpollStateSet_log _ efd fd .wakeup behavior' state.events⟩
    rw [← savedEvents_eq_lastAwake hawake, ← hok.states, hstate]
    rfl

/-- A descriptor added for edge-triggered reads, put to sleep twice and woken up. -/
theorem wakeup_restores_events_edge_read :
    ∃ index index', Run EpollIndex.Step mkEpollStateInit
      [.add 3 7 .read epollEt false, .changeMode 3 7 .sleep mkEpollLevelTriggered,
        .changeMode 3 7 .sleep mkEpollLevelTriggered] index ∧
      index.step (.changeMode 3 7 .wakeup mkEpollLevelTriggered) = some index' ∧
      createdAwake 3 7 index.log ∧
      ∃ events, lastAwake 3 7 index.log = some events ∧
        index'.log = .ctl 3 7 .wakeup events true :: index.log := by
  have hrun : ∃ index, Run EpollIndex.Step mkEpollStateInit
      [.add 3 7 .read epollEt false, .changeMode 3 7 .sleep mkEpollLevelTriggered,
        .changeMode 3 7 .sleep mkEpollLevelTriggered] index ∧
      (index.step (.changeMode 3 7 .wakeup mkEpollLevelTriggered)).isSome = true ∧
      (recordings 3 7 index.log).getLast? = some (.read, addEvents .read epollEt) :=
    ⟨_, Run.of_foldlM rfl, by decide +kernel, by decide +kernel⟩
  obtain ⟨index, hrun, hstep, hlast⟩ := hrun
  obtain ⟨index', hindex'⟩ := Option.isSome_iff_exists.mp hstep
  have hawake : createdAwake 3 7 index.log := ⟨_, hlast, by decide⟩
  exact ⟨index, index', hrun, hindex', hawake,
    (wakeup_restores_events hrun).2.2.2 3 7 mkEpollLevelTriggered index' hindex' hawake⟩

end Monkey
