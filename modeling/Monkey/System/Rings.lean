import Monkey.MkList
import Monkey.System.Ops

/-!
# Monkey.System.Rings

The two queues of a scheduler node as they are in memory: rings through the `_head` of each
connection.  Whatever the node went through since its slots were allocated, the operations of
`mk_list.h` that its moves consist of leave its queues there, and so does the walk of
`mk_sched_check_timeouts`, which takes connections out of the ring it is on.
-/

namespace Monkey

/-- The list nodes of a scheduler node: `busy_queue`, `av_queue`, and the `_head` of each
slot. -/
inductive SchedLink
  | busy
  | av
  | slot (i : Nat)
deriving DecidableEq, Repr

/-- The nodes of a queue. -/
def queueLinks (queue : List SchedConnection) : List SchedLink := queue.map fun sc => .slot sc.slot

/-- The lists of a scheduler node. -/
def SchedListNode.lists (node : SchedListNode) : SchedLink → Option (List SchedLink)
  | .busy => some (queueLinks node.busyQueue)
  | .av => some (queueLinks node.avQueue)
  | .slot _ => none

theorem nodup_queueLinks {queue : List SchedConnection} (h : (queue.map (·.slot)).Nodup) : (queueLinks queue).Nodup := by
  have hmap : queueLinks queue = (queue.map (·.slot)).map .slot := (List.map_map ..).symm
  rw [hmap]
  exact h.map fun _ _ => SchedLink.slot.inj

theorem busy_notMem (queue : List SchedConnection) : .busy ∉ queueLinks queue := by
  simp [queueLinks]

theorem av_notMem (queue : List SchedConnection) : .av ∉ queueLinks queue := by
  simp [queueLinks]

namespace SlotsOk

variable {cap : Nat} {node node' : SchedListNode}

/-- No slot is in both queues. -/
theorem nodup_append (h : SlotsOk cap node) : (queueLinks node.avQueue ++ queueLinks node.busyQueue).Nodup := by
  have hslots := nodup_queueLinks (h.slots.nodup_iff.mpr List.nodup_range)
  rwa [queueLinks, List.map_append] at hslots

theorem apart (h : SlotsOk cap node) : ∀ x ∈ SchedLink.av :: queueLinks node.avQueue,
    x ∉ SchedLink.busy :: queueLinks node.busyQueue := by
  obtain ⟨-, -, hdisj⟩ := List.nodup_append.mp h.nodup_append
  intro x hx hx'
  obtain rfl | hx := List.mem_cons.mp hx
  · obtain hx' | hx' := List.mem_cons.mp hx'
    · cases hx'
    · exact av_notMem _ hx'
  · obtain rfl | hx' := List.mem_cons.mp hx'
    · exact busy_notMem _ hx
    · exact hdisj x hx x hx' rfl

/-- The queues as rings. -/
def rings (h : SlotsOk cap node) : Rings SchedLink where
  list := node.lists
  nodup := by
    obtain ⟨hav, hbusy, -⟩ := List.nodup_append.mp h.nodup_append
    intro head l hl
    cases head with
    | busy =>
        obtain rfl := Option.some.inj hl
        exact List.nodup_cons.mpr ⟨busy_notMem _, hbusy⟩
    | av =>
        obtain rfl := Option.some.inj hl
        exact List.nodup_cons.mpr ⟨av_notMem _, hav⟩
    | slot i => cases hl
  disjoint := by
    intro head head' l l' hl hl' hne x hx hx'
    cases head with
    | busy =>
        obtain rfl := Option.some.inj hl
        cases head' with
        | busy => exact hne rfl
        | av =>
            obtain rfl := Option.some.inj hl'
            exact h.apart x hx' hx
        | slot i => cases hl'
    | av =>
        obtain rfl := Option.some.inj hl
        cases head' with
        | busy =>
            obtain rfl := Option.some.inj hl'
            exact h.apart x hx hx'
        | av => exact hne rfl
        | slot i => cases hl'
    | slot i => cases hl

/-- Nodes with the same slots in their queues are the same rings. -/
theorem rings_eq (h : SlotsOk cap node) {r : Rings SchedLink} (hlist : r.list = node.lists) : r = h.rings :=
  Rings.ext fun head => congrFun hlist head

end SlotsOk

/-! ## moves -/

/-- The operations of a slot that goes to the end of the other queue. -/
def moveOps (i : Nat) (queue : SchedLink) : List (ListOp SchedLink) := (NodeMove.move queue).ops (.slot i)

/-- A slot that goes from one queue to the end of the other. -/
theorem SlotsOk.move_rings {cap : Nat} {node node' : SchedListNode} (h : SlotsOk cap node) (h' : SlotsOk cap node') {i : Nat}
    {src dst : SchedLink} {kept rest l : List SchedLink} (hne : dst ≠ src)
    (hsrc : node.lists src = some (kept ++ .slot i :: rest)) (hsrc' : node'.lists src = some (kept ++ rest))
    (hdst : node.lists dst = some l) (hdst' : node'.lists dst = some (l ++ [.slot i]))
    (hothers : ∀ head, head ≠ src → head ≠ dst → node'.lists head = node.lists head) :
    Run Rings.Step h.rings (moveOps i dst) h'.rings := by
  have hmem : .slot i ∈ kept ++ .slot i :: rest := List.mem_append_right kept List.mem_cons_self
  have hkept : .slot i ∉ kept := by
    obtain ⟨-, hnodup⟩ := List.nodup_cons.mp (h.rings.nodup hsrc)
    exact fun hi => (List.nodup_append.mp hnodup).2.2 _ hi _ List.mem_cons_self rfl
  have hfree : ∀ head l, head ≠ src → node.lists head = some l → .slot i ∉ l := fun head l hhead hl hi =>
    h.rings.ne hsrc hl hhead.symm (List.mem_cons_of_mem src hmem) (List.mem_cons_of_mem head hi) rfl
  obtain ⟨r', -, hrun, -, -⟩ := Rings.exists_move (r := h.rings) hsrc (.move dst) fun g hg => by
    obtain rfl := NodeMove.move.inj hg
    exact ⟨hne, Option.isSome_iff_exists.mpr ⟨l, hdst⟩⟩
  have hsame : r' = h'.rings := by
    refine h'.rings_eq ((Rings.list_of_run hrun).trans ?_)
    funext head
    change (if head = dst then ((node.lists head).map (·.erase (.slot i))).map (· ++ [.slot i])
      else (node.lists head).map (·.erase (.slot i))) = node'.lists head
    by_cases hd : head = dst
    · rw [if_pos hd, hd, hdst, hdst', Option.map_some, Option.map_some, List.erase_of_not_mem (hfree dst l hne hdst)]
    · rw [if_neg hd]
      by_cases hs : head = src
      · rw [hs, hsrc, hsrc', Option.map_some, List.erase_append_right _ hkept, List.erase_cons_head]
      · rw [hothers head hs hd]
        cases hl : node.lists head with
        | none => rfl
        | some l => rw [Option.map_some, List.erase_of_not_mem (hfree head l hs hl)]
  rw [← hsame]
  exact hrun

/-- `mk_sched_register_client` takes the first available slot. -/
def takeOps (node : SchedListNode) : List (ListOp SchedLink) :=
  match node.avQueue with
  | [] => []
  | sc :: _ => moveOps sc.slot .busy

/-- `mk_sched_remove_client` gives the slot of a descriptor back, if there is one. -/
def releaseOps (node : SchedListNode) (fd : Int) : List (ListOp SchedLink) :=
  match mkSchedGetConnection node fd with
  | none => []
  | some sc => moveOps sc.slot .av

theorem schedTake_rings {cap : Nat} {node node' : SchedListNode} {fd now : Int} (h : SlotsOk cap node)
    (h' : SlotsOk cap node') (htake : schedTake node fd now = some node') :
    Run Rings.Step h.rings (takeOps node) h'.rings := by
  simp only [schedTake] at htake
  split at htake
  · cases htake
  · next sc av hav =>
      obtain rfl := Option.some.inj htake
      have hsrc : node.lists .av = some ([] ++ .slot sc.slot :: queueLinks av) := by
        rw [SchedListNode.lists, hav]
        rfl
      rw [takeOps, hav]
      refine h.move_rings h' (by decide) hsrc rfl rfl ?_ fun head hav hbusy => ?_
      · exact congrArg some List.map_append
      · cases head with
        | busy => exact absurd rfl hbusy
        | av => exact absurd rfl hav
        | slot i => rfl

theorem schedRelease_rings {cap : Nat} {node : SchedListNode} (h : SlotsOk cap node) (fd : Int) :
    Run Rings.Step h.rings (releaseOps node fd) (h.release fd).rings := by
  cases hget : mkSchedGetConnection node fd with
  | none =>
      have hsame : h.rings = (h.release fd).rings := by
        refine (h.release fd).rings_eq ?_
        rw [schedRelease, hget]
        rfl
      rw [releaseOps, hget, ← hsame]
      exact .nil _
  | some sc =>
      obtain ⟨hsc, kept, rest, hbusy, hkept⟩ := List.find?_eq_some_iff_append.mp hget
      have herase : node.busyQueue.eraseP (fun sc => sc.socket == fd) = kept ++ rest := by
        rw [hbusy, List.eraseP_append_right _ fun b hb => by simpa using hkept b hb]
        exact congrArg (kept ++ ·) (List.eraseP_cons_of_pos hsc)
      have hrelease : (schedRelease node fd).lists = fun
          | .busy => some (queueLinks kept ++ queueLinks rest)
          | .av => some (queueLinks node.avQueue ++ [.slot sc.slot])
          | .slot _ => none := by
        funext head
        rw [schedRelease, hget]
        cases head with
        | busy =>
            simp only [SchedListNode.lists, herase]
            exact congrArg some List.map_append
        | av => exact congrArg some List.map_append
        | slot i => rfl
      have hsrc : node.lists .busy = some (queueLinks kept ++ .slot sc.slot :: queueLinks rest) := by
        rw [SchedListNode.lists, hbusy]
        exact congrArg some List.map_append
      rw [releaseOps, hget]
      refine h.move_rings (h.release fd) (by decide) hsrc (by rw [hrelease]) rfl (by rw [hrelease]) fun head hbusy hav => ?_
      cases head with
      | busy => exact absurd rfl hbusy
      | av => exact absurd rfl hav
      | slot i => rfl

/-- A change of status moves nothing. -/
theorem mkSchedUpdateConnStatus_lists (node : SchedListNode) (fd : Int) (status : ConnStatus) :
    (mkSchedUpdateConnStatus node fd status).2.lists = node.lists := by
  have hav : (mkSchedUpdateConnStatus node fd status).2.avQueue = node.avQueue := by
    unfold mkSchedUpdateConnStatus
    split <;> rfl
  funext head
  cases head with
  | busy => exact congrArg some (mkSchedUpdateConnStatus_map (fun _ _ => rfl) node fd status)
  | av => rw [SchedListNode.lists, SchedListNode.lists, hav]
  | slot i => rfl

/-! ## a new node -/

/-- `mk_sched_register_thread`: both queues, and then each slot. -/
def registerOps (slots : Nat) : List (ListOp SchedLink) :=
  [.init .busy, .init .av] ++ (List.range slots).map fun i => .add (.slot i) .av

/-- The lists when so many slots were added. -/
def registeredLists (slots : Nat) : SchedLink → Option (List SchedLink)
  | .busy => some []
  | .av => some ((List.range slots).map .slot)
  | .slot _ => none

theorem registerOps_run (slots : Nat) :
    ∃ r, Run Rings.Step Rings.empty (registerOps slots) r ∧ r.list = registeredLists slots := by
  induction slots with
  | zero =>
      have hbusy : (ListOp.init .busy).Allowed (Rings.empty : Rings SchedLink) := fun h l hl => nomatch hl
      have hav : (ListOp.init SchedLink.av).Allowed ((ListOp.init .busy).apply Rings.empty hbusy) := by
        intro h l hl
        change (if h = SchedLink.busy then some [] else none) = some l at hl
        grind
      refine ⟨_, .cons ⟨hbusy, rfl⟩ (.cons ⟨hav, rfl⟩ (.nil _)), ?_⟩
      funext head
      cases head <;> rfl
  | succ slots ih =>
      obtain ⟨r, hrun, hlist⟩ := ih
      have hadd : (ListOp.add (.slot slots) .av).Allowed r := by
        refine ⟨by rw [hlist]; rfl, fun head l hl hmem => ?_⟩
        rw [hlist] at hl
        cases head with
        | busy =>
            obtain rfl := Option.some.inj hl
            cases List.mem_singleton.mp hmem
        | av =>
            obtain rfl := Option.some.inj hl
            simp at hmem
        | slot i => cases hl
      refine ⟨(ListOp.add (.slot slots) .av).apply r hadd, ?_, ?_⟩
      · rw [registerOps, List.range_succ, List.map_append, ← List.append_assoc]
        exact hrun.append (.cons ⟨hadd, rfl⟩ (.nil _))
      · funext head
        change (if head = .av then (r.list head).map (· ++ [.slot slots]) else r.list head) = _
        rw [hlist]
        cases head with
        | busy => rfl
        | av => rw [if_pos rfl, registeredLists, registeredLists, Option.map_some, List.range_succ, List.map_append]; rfl
        | slot i => rfl

theorem register_rings (cfg : Config) :
    Run Rings.Step Rings.empty (registerOps cfg.workerCapacity.toNat) (SlotsOk.register cfg).rings := by
  obtain ⟨r, hrun, hlist⟩ := registerOps_run cfg.workerCapacity.toNat
  have hsame : r = (SlotsOk.register cfg).rings := by
    refine (SlotsOk.register cfg).rings_eq (hlist.trans ?_)
    funext head
    cases head with
    | busy => rfl
    | av =>
        have hslots : queueLinks (mkSchedRegisterThread cfg).avQueue = (List.range cfg.workerCapacity.toNat).map .slot :=
          List.map_map ..
        exact congrArg some hslots.symm
    | slot i => rfl
  exact hsame ▸ hrun

/-! ## all of its history -/

/-- A scheduler node and its memory, through everything that happens to it. -/
inductive SchedInMemory (cfg : Config) : SchedListNode → Links SchedLink → Prop
  | register {m m' : Links SchedLink} (hexec : (registerOps cfg.workerCapacity.toNat).foldlM ListOp.exec m = some m') :
      SchedInMemory cfg (mkSchedRegisterThread cfg) m'
  | status {node : SchedListNode} {m : Links SchedLink} (h : SchedInMemory cfg node m) (fd : Int) (status : ConnStatus) :
      SchedInMemory cfg (mkSchedUpdateConnStatus node fd status).2 m
  | take {node node' : SchedListNode} {m m' : Links SchedLink} {fd now : Int} (h : SchedInMemory cfg node m)
      (hslot : fd ∉ node.busyFds) (htake : schedTake node fd now = some node')
      (hexec : (takeOps node).foldlM ListOp.exec m = some m') : SchedInMemory cfg node' m'
  | release {node : SchedListNode} {m m' : Links SchedLink} (h : SchedInMemory cfg node m) (fd : Int)
      (hexec : (releaseOps node fd).foldlM ListOp.exec m = some m') : SchedInMemory cfg (schedRelease node fd) m'

namespace SchedInMemory

variable {cfg : Config} {node node' : SchedListNode} {m : Links SchedLink}

/-- The rings in memory are the queues. -/
theorem represents (h : SchedInMemory cfg node m) :
    ∃ hok : SlotsOk cfg.workerCapacity.toNat node, m.Represents hok.rings := by
  induction h with
  | register hexec =>
      have hempty : ∀ m : Links SchedLink, m.Represents Rings.empty := fun m h l hl => nomatch hl
      exact ⟨.register cfg, (hempty _).of_exec (register_rings cfg) hexec⟩
  | status h fd status ih =>
      obtain ⟨hok, hm⟩ := ih
      have hsame : hok.rings = (hok.status fd status).rings :=
        (hok.status fd status).rings_eq (mkSchedUpdateConnStatus_lists ..).symm
      exact ⟨hok.status fd status, hsame ▸ hm⟩
  | take h hslot htake hexec ih =>
      obtain ⟨hok, hm⟩ := ih
      exact ⟨hok.take hslot htake, hm.of_exec (schedTake_rings hok _ htake) hexec⟩
  | release h fd hexec ih =>
      obtain ⟨hok, hm⟩ := ih
      exact ⟨hok.release fd, hm.of_exec (schedRelease_rings hok fd) hexec⟩

/-- **The queues in memory**, after everything a scheduler node went through: a walk from the
head of a queue comes to its slots, in its order. -/
theorem mkListForeach_queues (h : SchedInMemory cfg node m) :
    mkListForeach m .busy (node.busyQueue.length + 1) = some (queueLinks node.busyQueue) ∧
      mkListForeach m .av (node.avQueue.length + 1) = some (queueLinks node.avQueue) := by
  obtain ⟨hok, hm⟩ := h.represents
  have hlists : ∀ head queue, node.lists head = some (queueLinks queue) →
      mkListForeach m head (queue.length + 1) = some (queueLinks queue) := by
    intro head queue hqueue
    have hforeach := (hm head _ hqueue).mkListForeach_eq (hok.rings.nodup hqueue)
    rwa [queueLinks, List.length_map, ← queueLinks] at hforeach
  exact ⟨hlists .busy _ rfl, hlists .av _ rfl⟩

end SchedInMemory

/-! ## the walk over the pending connections -/

/-- What `mk_sched_check_timeouts` does with the node of a connection of the busy queue. -/
def pendingChoice (cfg : Config) (now : Int) (queue : List SchedConnection) (_ : Links SchedLink) (curr : SchedLink) :
    NodeMove SchedLink :=
  match queue.find? fun sc => SchedLink.slot sc.slot == curr with
  | some sc => if connExpired cfg now sc then .move .av else .keep
  | none => .keep

theorem pendingChoice_eq {cfg : Config} {now : Int} {queue : List SchedConnection} (hnodup : (queueLinks queue).Nodup)
    {sc : SchedConnection} (hsc : sc ∈ queue) (m : Links SchedLink) :
    pendingChoice cfg now queue m (.slot sc.slot) = if connExpired cfg now sc then .move .av else .keep := by
  have hkeys : (queue.map fun sc => SchedLink.slot sc.slot).Nodup := hnodup
  rw [pendingChoice, find?_key_of_mem hkeys hsc]

/-- A busy connection is the one that is found for its descriptor. -/
theorem SlotsOk.get_of_mem {cap : Nat} {node : SchedListNode} (h : SlotsOk cap node) {sc : SchedConnection}
    (hsc : sc ∈ node.busyQueue) : mkSchedGetConnection node sc.socket = some sc := find?_key_of_mem h.busy hsc

/-- A release takes no other descriptor out of the queue. -/
theorem mem_schedRelease {node : SchedListNode} {fd : Int} {sc : SchedConnection} (hsc : sc ∈ node.busyQueue)
    (hfd : sc.socket ≠ fd) : sc ∈ (schedRelease node fd).busyQueue := by
  unfold schedRelease
  split
  · exact hsc
  · exact (List.mem_eraseP_of_neg (by simpa using hfd)).mpr hsc

/-- The walk from some connection on, and the fold over the expired ones. -/
theorem SchedInMemory.walk {cfg : Config} {now : Int} {choice : Links SchedLink → SchedLink → NodeMove SchedLink}
    {rest : List SchedConnection} {node : SchedListNode} {m m' : Links SchedLink} (h : SchedInMemory cfg node m)
    (hrest : ∀ sc ∈ rest, sc ∈ node.busyQueue) (hnodup : (rest.map (·.socket)).Nodup)
    (hchoice : ∀ m, ∀ sc ∈ rest, choice m (.slot sc.slot) = if connExpired cfg now sc then .move .av else .keep)
    (hwalk : (queueLinks rest).foldlM (walkBody choice) m = some m') :
    SchedInMemory cfg ((rest.filter (connExpired cfg now)).foldl (fun node sc => schedRelease node sc.socket) node) m' := by
  -- a release leaves the connections that the walk has not come to where they are
  induction rest generalizing node m with
  | nil =>
      obtain rfl := Option.some.inj hwalk
      exact h
  | cons sc rest ih =>
      obtain ⟨hsc, hrest⟩ := List.forall_mem_cons.mp hrest
      obtain ⟨hnot, hnodup⟩ := List.nodup_cons.mp hnodup
      have hmore : ∀ m, ∀ sc ∈ rest, choice m (.slot sc.slot) = if connExpired cfg now sc then .move .av else .keep :=
        fun m sc hsc => hchoice m sc (List.mem_cons_of_mem _ hsc)
      rw [queueLinks, List.map_cons, List.foldlM_cons] at hwalk
      obtain ⟨m₁, hbody, hwalk⟩ := Option.bind_eq_some_iff.mp hwalk
      rw [walkBody, hchoice m sc List.mem_cons_self] at hbody
      by_cases hexpired : connExpired cfg now sc = true
      · obtain ⟨hok, -⟩ := h.represents
        rw [if_pos hexpired] at hbody
        have hops : releaseOps node sc.socket = moveOps sc.slot .av := by
          rw [releaseOps, hok.get_of_mem hsc]
        have hnext : SchedInMemory cfg (schedRelease node sc.socket) m₁ := h.release sc.socket (hops ▸ hbody)
        rw [List.filter_cons_of_pos hexpired, List.foldl_cons]
        refine ih hnext (fun sc' hsc' => mem_schedRelease (hrest sc' hsc') fun heq => hnot ?_) hnodup hmore hwalk
        exact List.mem_map.mpr ⟨sc', hsc', heq⟩
      · rw [if_neg hexpired] at hbody
        obtain rfl := Option.some.inj hbody
        rw [List.filter_cons_of_neg hexpired]
        exact ih h hrest hnodup hmore hwalk

theorem checkPending_sched (cfg : Config) (now : Int) (w : Worker) :
    (checkPending cfg now w).sched = (w.sched.busyQueue.filter (connExpired cfg now)).foldl
      (fun node sc => schedRelease node sc.socket) w.sched :=
  (List.foldl_hom Worker.sched fun w sc => (mkSchedRemoveClient_sched w sc.socket).symm).symm

/-- **The timeout check walks over its queue while it takes connections out of it**: it comes to
every busy connection once, and leaves the queues of the scheduler that gives back the expired
ones. -/
theorem SchedInMemory.checkPending_walk {cfg : Config} {w : Worker} {m : Links SchedLink}
    (h : SchedInMemory cfg w.sched m) (now : Int) :
    ∃ m', mkListForeachSafe (walkBody (pendingChoice cfg now w.sched.busyQueue)) m .busy (w.sched.busyQueue.length + 1) =
        some (m', queueLinks w.sched.busyQueue) ∧ SchedInMemory cfg (checkPending cfg now w).sched m' := by
  obtain ⟨hok, hm⟩ := h.represents
  obtain ⟨-, hlinks, -⟩ := List.nodup_append.mp hok.nodup_append
  have hr : hok.rings.list .busy = some (queueLinks w.sched.busyQueue) := rfl
  have hmove : ∀ m x head, pendingChoice cfg now w.sched.busyQueue m x = .move head →
      head ≠ .busy ∧ (hok.rings.list head).isSome = true := by
    intro m x head hmove
    unfold pendingChoice at hmove
    split at hmove
    · split at hmove
      · obtain rfl := NodeMove.move.inj hmove
        exact ⟨by decide, rfl⟩
      · contradiction
    · contradiction
  obtain ⟨m', r', moves, hloop, hfold, -⟩ := hm.mkListForeachSafe_eq _ hr hmove
  rw [queueLinks, List.length_map, ← queueLinks] at hloop
  refine ⟨m', hloop, ?_⟩
  rw [checkPending_sched]
  exact h.walk (fun sc hsc => hsc) hok.busy (fun m sc hsc => pendingChoice_eq hlinks hsc m) hfold

end Monkey
