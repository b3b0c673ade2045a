import Monkey.Lib.Fifo
import Monkey.Logger.Record

/-!
# Monkey.Logger.Pipes

The way of a record into its file (`mk_iov_send` in the hook, `mk_logger_worker_init`).

The workers write their records to pipes that do not block, one pipe for each log; the thread
of the logger waits for pipes with something in them, and moves what a pipe holds to the end of
its file once the pipe is filled to three quarters or the flush timeout is over.

A call of a worker or of the thread is one step, in any order that the kernel allows.  A record
that is not longer than the atomic size of a pipe is taken whole or refused, and one that is
refused is lost; of a longer one a part may be taken.
-/

namespace Monkey.Logger

/-- Where the logs are, and the constants of the system and of `logger.conf`. -/
structure LoggerConf where
  path : LogPipe → Bytes
  pageSize : Nat
  /-- A write of at most so many bytes is not split (`PIPE_BUF`). -/
  pipeBuf : Nat
  capacity : Nat
  /-- `mk_logger_timeout`, which `mk_logger_read_config` requires to be positive. -/
  timeout : Int
  timeout_pos : 0 < timeout

/-- `buffer_limit`: three quarters of `pipe_size`. -/
def LoggerConf.bufferLimit (conf : LoggerConf) : Nat := conf.pageSize * 16 * 3 / 4

/-- Where the thread of the logger is. -/
inductive LoggerAt
  | waiting
  | turn (events : List LogPipe)
  | opening (p : LogPipe) (bytes : Nat) (events : List LogPipe)
  | splicing (p : LogPipe) (bytes : Nat) (events : List LogPipe)
  | draining (p : LogPipe) (bytes consumed : Nat) (events : List LogPipe)

/-- The pipes, the files, and the variables of the thread.  A file is what has been appended to it,
by its path, so that two logs of one path share it; that another process cuts it is left out. -/
structure LogState where
  pipe : LogPipe → Bytes
  file : Bytes → Bytes
  timeout : Int
  clk : Int
  pc : LoggerAt

/-- A worker's `writev` of a record, which takes `n` bytes (0 is `EAGAIN`), or a call of the
logger with its result; `skip` and `flush` are the two outcomes of the test behind `FIONREAD`. -/
inductive LogAct
  | write (p : LogPipe) (record : Bytes) (n : Nat)
  | wait (events : List LogPipe) (clk : Int)
  | skip (p : LogPipe) (bytes : Nat)
  | flush (p : LogPipe) (bytes : Nat)
  | opened (p : LogPipe) (ok : Bool)
  | splice (p : LogPipe) (moved : Bytes)
  | read (p : LogPipe) (buf : Bytes)
  | again
deriving DecidableEq

/-- The size of `buf` in the loop that empties the pipe of a file that cannot be opened. -/
def drainBuf : Nat := 255

/-- One call; `none` where it cannot come next or would block. -/
def logStep (conf : LoggerConf) (s : LogState) : LogAct → Option LogState
  | .write p record n =>
      if (s.pipe p).length + n ≤ conf.capacity ∧ n ≤ record.length ∧
          (record.length ≤ conf.pipeBuf → n = 0 ∨ n = record.length) then
        some { s with pipe := Function.update s.pipe p (s.pipe p ++ record.take n) }
      else none
  | .wait events clk =>
      match s.pc with
      | .waiting =>
          -- level triggered: the pipes that hold something
          if events ≠ [] ∧ events.Nodup ∧ ∀ p ∈ events, s.pipe p ≠ [] then
            some { s with pc := .turn events, clk := clk }
          else none
      | _ => none
  | .skip p bytes =>
      match s.pc with
      | .turn (q :: events) =>
          if q = p ∧ bytes = (s.pipe p).length ∧ bytes < conf.bufferLimit ∧ s.clk ≤ s.timeout then
            some { s with pc := .turn events }
          else none
      | _ => none
  | .flush p bytes =>
      match s.pc with
      | .turn (q :: events) =>
          if q = p ∧ bytes = (s.pipe p).length ∧ ¬ (bytes < conf.bufferLimit ∧ s.clk ≤ s.timeout) then
            some { s with pc := .opening p bytes events, timeout := s.clk + conf.timeout }
          else none
      | _ => none
  | .opened p ok =>
      match s.pc with
      | .opening q bytes events =>
          if q = p then
            some { s with pc := if ok then .splicing p bytes events else .draining p bytes 0 events }
          else none
      | _ => none
  | .splice p moved =>
      match s.pc with
      | .splicing q bytes events =>
          if q = p ∧ s.pipe p ≠ [] ∧ moved <+: s.pipe p ∧ moved.length ≤ bytes then
            some
              { s with
                pc := .turn events
                pipe := Function.update s.pipe p ((s.pipe p).drop moved.length)
                file := Function.update s.file (conf.path p) (s.file (conf.path p) ++ moved) }
          else none
      | _ => none
  | .read p buf =>
      match s.pc with
      | .draining q bytes consumed events =>
          if q = p ∧ s.pipe p ≠ [] ∧ buf = (s.pipe p).take drainBuf then
            some
              { s with
                pc :=
                  if consumed + buf.length < bytes then .draining p bytes (consumed + buf.length) events
                  else .turn events
                pipe := Function.update s.pipe p ((s.pipe p).drop buf.length) }
          else none
      | _ => none
  | .again =>
      match s.pc with
      | .turn [] => some { s with pc := .waiting }
      | _ => none

/-- The runs of the workers and the logger, in any order of their calls. -/
abbrev LogRun (conf : LoggerConf) : LogState → List LogAct → LogState → Prop :=
  Run fun s a s' => logStep conf s a = some s'

/-! ## what the calls move -/

/-- What a call adds to a pipe. -/
def accepted (p : LogPipe) : LogAct → Bytes
  | .write q record n => if q = p then record.take n else []
  | _ => []

/-- What a call moves from a pipe to its file. -/
def written (p : LogPipe) : LogAct → Bytes
  | .splice q moved => if q = p then moved else []
  | _ => []

/-- What a call takes from a pipe and drops. -/
def dropped (p : LogPipe) : LogAct → Bytes
  | .read q buf => if q = p then buf else []
  | _ => []

/-- What a call takes from a pipe. -/
def taken (p : LogPipe) (a : LogAct) : Bytes := written p a ++ dropped p a

/-- What a call adds to a file. -/
def filed (conf : LoggerConf) (path : Bytes) : LogAct → Bytes
  | .splice q moved => if conf.path q = path then moved else []
  | _ => []

section

variable {conf : LoggerConf} {s s' : LogState} {a : LogAct} {as : List LogAct} {p : LogPipe}

/-- What a call does, and when it can come. -/
inductive LogMove (conf : LoggerConf) (s : LogState) : LogAct → LogState → Prop
  | write {p : LogPipe} {record : Bytes} {n : Nat} (room : (s.pipe p).length + n ≤ conf.capacity)
      (hn : n ≤ record.length) (whole : record.length ≤ conf.pipeBuf → n = 0 ∨ n = record.length) :
      LogMove conf s (.write p record n) { s with pipe := Function.update s.pipe p (s.pipe p ++ record.take n) }
  | wait {events : List LogPipe} {clk : Int} (pc : s.pc = .waiting) (some : events ≠ []) (nodup : events.Nodup)
      (ready : ∀ p ∈ events, s.pipe p ≠ []) :
      LogMove conf s (.wait events clk) { s with pc := .turn events, clk := clk }
  | skip {p : LogPipe} {events : List LogPipe} (pc : s.pc = .turn (p :: events))
      (low : (s.pipe p).length < conf.bufferLimit) (early : s.clk ≤ s.timeout) :
      LogMove conf s (.skip p (s.pipe p).length) { s with pc := .turn events }
  | flush {p : LogPipe} {events : List LogPipe} (pc : s.pc = .turn (p :: events))
      (due : ¬ ((s.pipe p).length < conf.bufferLimit ∧ s.clk ≤ s.timeout)) :
      LogMove conf s (.flush p (s.pipe p).length)
        { s with pc := .opening p (s.pipe p).length events, timeout := s.clk + conf.timeout }
  | opened {p : LogPipe} {bytes : Nat} {events : List LogPipe} (pc : s.pc = .opening p bytes events) :
      LogMove conf s (.opened p true) { s with pc := .splicing p bytes events }
  | failed {p : LogPipe} {bytes : Nat} {events : List LogPipe} (pc : s.pc = .opening p bytes events) :
      LogMove conf s (.opened p false) { s with pc := .draining p bytes 0 events }
  | splice {p : LogPipe} {bytes : Nat} {events : List LogPipe} {moved rest : Bytes}
      (pc : s.pc = .splicing p bytes events) (cut : s.pipe p = moved ++ rest) (most : moved.length ≤ bytes) :
      LogMove conf s (.splice p moved)
        { s with
          pc := .turn events
          pipe := Function.update s.pipe p rest
          file := Function.update s.file (conf.path p) (s.file (conf.path p) ++ moved) }
  | read {p : LogPipe} {bytes consumed : Nat} {events : List LogPipe} {buf rest : Bytes}
      (pc : s.pc = .draining p bytes consumed events) (cut : s.pipe p = buf ++ rest) (some : buf ≠ []) 
      (full : buf.length = min drainBuf (s.pipe p).length) :
      LogMove conf s (.read p buf)
        { s with
          pc :=
            if consumed + buf.length < bytes then .draining p bytes (consumed + buf.length) events
            else .turn events
          pipe := Function.update s.pipe p rest }
  | again (pc : s.pc = .turn []) : LogMove conf s .again { s with pc := .waiting }

theorem logStep_move (h : logStep conf s a = some s') : LogMove conf s a s' := by
  cases a with
  | write p record n =>
      obtain ⟨⟨hroom, hn, hwhole⟩, rfl⟩ := Option.ite_some_none_eq_some.mp h
      exact .write hroom hn hwhole
  | wait events clk =>
      simp only [logStep] at h
      split at h
      · next hpc =>
          obtain ⟨⟨hsome, hnodup, hready⟩, rfl⟩ := Option.ite_some_none_eq_some.mp h
          exact .wait hpc hsome hnodup hready
      · contradiction
  | skip p bytes =>
      simp only [logStep] at h
      split at h
      · next hpc =>
          obtain ⟨⟨rfl, rfl, hlow, hearly⟩, rfl⟩ := Option.ite_some_none_eq_some.mp h
          exact .skip hpc hlow hearly
      · contradiction
  | flush p bytes =>
      simp only [logStep] at h
      split at h
      · next hpc =>
          obtain ⟨⟨rfl, rfl, hdue⟩, rfl⟩ := Option.ite_some_none_eq_some.mp h
          exact .flush hpc hdue
      · contradiction
  | opened p ok =>
      simp only [logStep] at h
      split at h
      · next hpc =>
          obtain ⟨rfl, rfl⟩ := Option.ite_some_none_eq_some.mp h
          cases ok with
          | true => exact .opened hpc
          | false => exact .failed hpc
      · contradiction
  | splice p moved =>
      simp only [logStep] at h
      split at h
      · next q bytes events hpc =>
          obtain ⟨⟨rfl, -, ⟨rest, hcut⟩, hmost⟩, rfl⟩ := Option.ite_some_none_eq_some.mp h
          have hrest : (s.pipe q).drop moved.length = rest := by rw [← hcut, List.drop_left]
          rw [hrest]
          exact .splice hpc hcut.symm hmost
      · contradiction
  | read p buf =>
      simp only [logStep] at h
      split at h
      · next q bytes consumed events hpc =>
          obtain ⟨⟨rfl, hne, rfl⟩, rfl⟩ := Option.ite_some_none_eq_some.mp h
          have hlen : ((s.pipe q).take drainBuf).length = min drainBuf (s.pipe q).length := List.length_take ..
          have hcut : s.pipe q = (s.pipe q).take drainBuf ++ (s.pipe q).drop ((s.pipe q).take drainBuf).length := by
            rcases le_total drainBuf (s.pipe q).length with hle | hle
            · rw [hlen, min_eq_left hle, List.take_append_drop]
            · rw [List.take_of_length_le hle, List.drop_length, List.append_nil]
          exact .read hpc hcut (by simpa [drainBuf] using hne) hlen
      · contradiction
  | again =>
      simp only [logStep] at h
      split at h
      · next hpc =>
          obtain rfl := Option.some.inj h
          exact .again hpc
      · contradiction

/-- **A step on a pipe**: what is taken comes from the front, what is accepted goes to the end. -/
theorem logStep_queue (p : LogPipe) (h : logStep conf s a = some s') :
    s.pipe p ++ accepted p a = taken p a ++ s'.pipe p := by
  have hupdate : ∀ q rest, q ≠ p → Function.update s.pipe q rest p = s.pipe p :=
    fun q rest hq => Function.update_of_ne (Ne.symm hq) ..
  cases logStep_move h with
  | @write q record n _ _ _ =>
      by_cases hq : q = p
      · subst hq
        simp [accepted, taken, written, dropped]
      · simp [accepted, taken, written, dropped, hq, hupdate]
  | @splice q bytes events moved rest _ hcut _ =>
      by_cases hq : q = p
      · subst hq
        simp [accepted, taken, written, dropped, hcut]
      · simp [accepted, taken, written, dropped, hq, hupdate]
  | @read q bytes consumed events buf rest _ hcut _ _ =>
      by_cases hq : q = p
      · subst hq
        simp [accepted, taken, written, dropped, hcut]
      · simp [accepted, taken, written, dropped, hq, hupdate]
  | _ => simp [accepted, taken, written, dropped]

/-- A step on a file. -/
theorem logStep_file (path : Bytes) (h : logStep conf s a = some s') :
    s'.file path = s.file path ++ filed conf path a := by
  cases logStep_move h with
  | @splice q bytes events moved rest _ _ _ =>
      by_cases hq : conf.path q = path
      · subst hq
        simp [filed]
      · simp [filed, hq, Function.update_of_ne (Ne.symm hq)]
  | _ => simp [filed]

/-- A run on a pipe. -/
theorem logRun_queue (p : LogPipe) (h : LogRun conf s as s') :
    s.pipe p ++ along (accepted p) as = along (taken p) as ++ s'.pipe p :=
  h.fifo (fun s => s.pipe p) (accepted p) (taken p) fun _ _ _ => logStep_queue p

/-- A run on a file. -/
theorem logRun_file (path : Bytes) (h : LogRun conf s as s') :
    s'.file path = s.file path ++ along (filed conf path) as :=
  h.grows (fun s => s.file path) (filed conf path) fun _ _ _ => logStep_file path

/-! ## whole records -/

/-- The records the workers have for a pipe. -/
def offered (p : LogPipe) : LogAct → List Bytes
  | .write q record _ => if q = p then [record] else []
  | _ => []

/-- Those that the pipe takes; a full pipe refuses a record. -/
def kept (p : LogPipe) : LogAct → List Bytes
  | .write q record n => if q = p ∧ n = record.length then [record] else []
  | _ => []

theorem sublist_offered (p : LogPipe) (as : List LogAct) : (along (kept p) as).Sublist (along (offered p) as) := by
  induction as with
  | nil => exact List.Sublist.slnil
  | cons a as ih =>
      refine List.Sublist.append ?_ ih
      cases a with
      | write q record n =>
          simp only [kept, offered]
          split_ifs with hkept hq hq
          · exact List.Sublist.refl _
          · exact absurd hkept.1 hq
          · exact List.nil_sublist _
          · exact List.nil_sublist _
      | _ => exact List.Sublist.refl _

/-- A record of at most `PIPE_BUF` bytes is taken whole or not at all. -/
theorem along_accepted (h : LogRun conf s as s') (hsmall : ∀ r ∈ along (offered p) as, r.length ≤ conf.pipeBuf) :
    along (accepted p) as = (along (kept p) as).flatten := by
  induction h with
  | nil s => rfl
  | @cons s t s' a as hab _ ih =>
      rw [along_cons] at hsmall
      rw [along_cons, along_cons, ih fun r hr => hsmall r (List.mem_append_right _ hr), List.flatten_append]
      congr 1
      cases logStep_move hab with
      | @write q record n _ _ hwhole =>
          simp only [accepted, kept]
          by_cases hq : q = p
          · have hrecord := hwhole (hsmall record (List.mem_append_left _ (by simp [offered, hq])))
            rcases hrecord with rfl | rfl
            · by_cases hnil : record = []
              · simp [hnil]
              · simp [hq, Ne.symm (mt List.length_eq_zero_iff.mp hnil)]
            · simp [hq]
          · simp [hq]
      | _ => rfl

/-- Nothing is dropped when the file can be opened each time. -/
theorem along_dropped (h : LogRun conf s as s') (hpc : s.pc = .waiting) (hopen : LogAct.opened p false ∉ as) :
    along (dropped p) as = [] := by
  have hall : (∀ bytes consumed events, s'.pc ≠ .draining p bytes consumed events) ∧
      along (dropped p) as = [] := by
    refine h.history (J := fun bs t => LogAct.opened p false ∉ bs →
      (∀ bytes consumed events, t.pc ≠ .draining p bytes consumed events) ∧ along (dropped p) bs = []) ?_ ?_ hopen
    · intro bs s a s' hJ hab hbs
      obtain ⟨hpc, hnil⟩ := hJ fun hmem => hbs (List.mem_append_left _ hmem)
      rw [along_append, hnil]
      cases logStep_move hab with
      | @read q bytes consumed events buf rest hq _ _ _ =>
          have hne : q ≠ p := by
            rintro rfl
            exact hpc _ _ _ hq
          refine ⟨fun b c es => ?_, by simp [along, dropped, hne]⟩
          dsimp only
          split <;> simp [hne]
      | @failed q bytes events _ =>
          have hne : q ≠ p := by
            rintro rfl
            exact hbs (List.mem_append_right _ (by simp))
          exact ⟨fun b c es => by simp [hne], rfl⟩
      | write => exact ⟨hpc, rfl⟩
      | _ => exact ⟨fun b c es => by simp, rfl⟩
    · intro _
      exact ⟨fun b c es => by simp [hpc], rfl⟩
  exact hall.2

/-- A file of one log only. -/
theorem along_filed (hown : ∀ q, conf.path q = conf.path p → q = p) (as : List LogAct) :
    along (filed conf (conf.path p)) as = along (written p) as := by
  have heq : filed conf (conf.path p) = written p := by
    funext a
    cases a with
    | splice q moved =>
        simp only [filed, written]
        by_cases hq : q = p
        · rw [if_pos hq, if_pos (by rw [hq])]
        · rw [if_neg hq, if_neg fun h => hq (hown q h)]
    | _ => rfl
  rw [heq]

/-- **The file of a log**, when it can be opened and is that of no other log: with what waits in
the pipe, it is what it was and the records that the pipe has taken, whole, in order and each
once; lines are found again at the newlines. -/
theorem logRun_records (h : LogRun conf s as s') (hpc : s.pc = .waiting) (hpipe : s.pipe p = [])
    (hown : ∀ q, conf.path q = conf.path p → q = p) (hopen : LogAct.opened p false ∉ as)
    (hsmall : ∀ r ∈ along (offered p) as, r.length ≤ conf.pipeBuf) :
    s'.file (conf.path p) ++ s'.pipe p = s.file (conf.path p) ++ (along (kept p) as).flatten ∧
      (along (kept p) as).Sublist (along (offered p) as) ∧
      ((∀ r ∈ along (offered p) as, IsPiece 0x0a r ∧ 0x0a ∈ r) →
        cutAfter 0x0a (along (kept p) as).flatten = along (kept p) as) := by
  have hqueue := logRun_queue p h
  have hfile := logRun_file (conf.path p) h
  have hdropped := along_dropped h hpc hopen
  have htaken : along (taken p) as = along (written p) as := by
    apply along_congr
    intro a ha
    rw [taken, along_eq_nil.mp hdropped a ha, List.append_nil]
  refine ⟨?_, sublist_offered p as, ?_⟩
  · rw [hpipe, List.nil_append, along_accepted h hsmall, htaken] at hqueue
    rw [hfile, along_filed hown, List.append_assoc, ← hqueue]
  · intro hlines
    have hcut := cutAfter_lines (fun r hr => hlines r ((sublist_offered p as).subset hr)) []
    rwa [List.append_nil, cutAfter, List.append_nil] at hcut

end

/-- One access log, that of the first host, at `a`. -/
def oneLog : LoggerConf where
  path := fun p => if p = .access 0 then [0x61] else []
  pageSize := 4096
  pipeBuf := 4096
  capacity := 65536
  timeout := 3
  timeout_pos := by decide

/-- Nothing is logged yet. -/
def logStart : LogState where
  pipe := fun _ => []
  file := fun _ => []
  timeout := 3
  clk := 0
  pc := .waiting

/-- A line is logged, and moved to the file at the second look. -/
def oneLine : List LogAct :=
  [.write (.access 0) [0x78, 0x0a] 2, .wait [.access 0] 1, .skip (.access 0) 2, .again, .wait [.access 0] 4,
    .flush (.access 0) 2, .opened (.access 0) true, .splice (.access 0) [0x78, 0x0a], .again]

theorem logRun_records_one : ∃ s', LogRun oneLog logStart oneLine s' ∧
    s'.file [0x61] ++ s'.pipe (.access 0) = [0x78, 0x0a] ∧
    cutAfter 0x0a (along (kept (.access 0)) oneLine).flatten = [[0x78, 0x0a]] := by
  have hrun : LogRun oneLog logStart oneLine _ := Run.of_foldlM rfl
  have hown : ∀ q, oneLog.path q = oneLog.path (.access 0) → q = .access 0 := by
    intro q hq
    by_contra hne
    simp [oneLog, hne] at hq
  obtain ⟨hfile, -, hlines⟩ := logRun_records hrun rfl rfl hown (by decide) (by decide)
  exact ⟨_, hrun, hfile, hlines (by simp [along, offered, oneLine, IsPiece])⟩

section

variable {conf : LoggerConf} {s s' : LogState} {a : LogAct} {as : List LogAct} {p : LogPipe}

/-! ## the thread of the logger -/

/-- A call of the logger's thread. -/
def LogAct.ofLogger : LogAct → Bool
  | .write .. => false
  | _ => true

/-- What the thread knows of the pipes it has still to look at: only it takes from them. -/
def LogState.Ready (s : LogState) : Prop :=
  match s.pc with
  | .waiting => True
  | .turn events => events.Nodup ∧ ∀ p ∈ events, s.pipe p ≠ []
  | .opening p bytes events | .splicing p bytes events =>
      (p :: events).Nodup ∧ (∀ q ∈ events, s.pipe q ≠ []) ∧ 0 < bytes ∧ bytes ≤ (s.pipe p).length
  | .draining p bytes consumed events =>
      (p :: events).Nodup ∧ (∀ q ∈ events, s.pipe q ≠ []) ∧ consumed < bytes ∧
        bytes ≤ consumed + (s.pipe p).length

/-- No pipe holds more than it can. -/
def LogState.Fits (conf : LoggerConf) (s : LogState) : Prop := ∀ p, (s.pipe p).length ≤ conf.capacity

theorem ready_of_pc {s : LogState} {pipe : LogPipe → Bytes} (hs : s.Ready)
    (hpipe : ∀ q, (s.pipe q).length ≤ (pipe q).length) : LogState.Ready { s with pipe := pipe } := by
  have hne : ∀ q, s.pipe q ≠ [] → pipe q ≠ [] := by
    intro q hq hnil
    have hlen := hpipe q
    rw [hnil, List.length_nil, Nat.le_zero, List.length_eq_zero_iff] at hlen
    exact hq hlen
  unfold LogState.Ready at hs ⊢
  dsimp only at hs ⊢
  cases hpc : s.pc with
  | waiting => trivial
  | turn events =>
      rw [hpc] at hs
      exact ⟨hs.1, fun q hq => hne q (hs.2 q hq)⟩
  | opening p bytes events =>
      rw [hpc] at hs
      exact ⟨hs.1, fun q hq => hne q (hs.2.1 q hq), hs.2.2.1, hs.2.2.2.trans (hpipe p)⟩
  | splicing p bytes events =>
      rw [hpc] at hs
      exact ⟨hs.1, fun q hq => hne q (hs.2.1 q hq), hs.2.2.1, hs.2.2.2.trans (hpipe p)⟩
  | draining p bytes consumed events =>
      rw [hpc] at hs
      have := hpipe p
      exact ⟨hs.1, fun q hq => hne q (hs.2.1 q hq), hs.2.2.1, by omega⟩

/-- Taking from one pipe leaves the others. -/
theorem update_ne_nil {pipe : LogPipe → Bytes} {events : List LogPipe} (hnodup : (p :: events).Nodup)
    (hready : ∀ q ∈ events, pipe q ≠ []) (rest : Bytes) : ∀ q ∈ events, Function.update pipe p rest q ≠ [] := by
  intro q hq
  have hne : q ≠ p := by
    rintro rfl
    exact (List.nodup_cons.mp hnodup).1 hq
  rw [Function.update_of_ne hne]
  exact hready q hq

theorem logStep_ready (hs : s.Ready) (h : logStep conf s a = some s') : s'.Ready := by
  cases logStep_move h with
  | @write p record n _ _ _ =>
      apply ready_of_pc hs
      intro q
      by_cases hq : q = p
      · subst hq
        simp
      · rw [Function.update_of_ne hq]
  | wait _ _ hnodup hready => exact ⟨hnodup, hready⟩
  | skip hpc _ _ =>
      rw [LogState.Ready, hpc] at hs
      exact ⟨(List.nodup_cons.mp hs.1).2, fun q hq => hs.2 q (List.mem_cons_of_mem _ hq)⟩
  | flush hpc _ =>
      rw [LogState.Ready, hpc] at hs
      have hne := hs.2 _ (List.mem_cons_self ..)
      exact ⟨hs.1, fun q hq => hs.2 q (List.mem_cons_of_mem _ hq), List.length_pos_iff.mpr hne, le_rfl⟩
  | opened hpc =>
      rw [LogState.Ready, hpc] at hs
      exact hs
  | failed hpc =>
      rw [LogState.Ready, hpc] at hs
      exact ⟨hs.1, hs.2.1, hs.2.2.1, by rw [Nat.zero_add]; exact hs.2.2.2⟩
  | @splice p bytes events moved rest hpc hcut hmost =>
      rw [LogState.Ready, hpc] at hs
      exact ⟨(List.nodup_cons.mp hs.1).2, update_ne_nil hs.1 hs.2.1 rest⟩
  | @read p bytes consumed events buf rest hpc hcut hsome hfull =>
      rw [LogState.Ready, hpc] at hs
      obtain ⟨hnodup, hready, hlt, hle⟩ := hs
      have hothers := update_ne_nil hnodup hready rest
      unfold LogState.Ready
      dsimp only
      by_cases hmore : consumed + buf.length < bytes
      · rw [if_pos hmore]
        refine ⟨hnodup, hothers, hmore, ?_⟩
        rw [hcut, List.length_append] at hle
        rw [Function.update_self]
        omega
      · rw [if_neg hmore]
        exact ⟨(List.nodup_cons.mp hnodup).2, hothers⟩
  | again _ => trivial

theorem logStep_fits (hs : s.Fits conf) (h : logStep conf s a = some s') : s'.Fits conf := by
  have hupdate : ∀ q rest, rest.length ≤ conf.capacity →
      ∀ p, (Function.update s.pipe q rest p).length ≤ conf.capacity := by
    intro q rest hrest p
    by_cases hp : p = q
    · rw [hp, Function.update_self]
      exact hrest
    · rw [Function.update_of_ne hp]
      exact hs p
  cases logStep_move h with
  | write hroom hn _ =>
      apply hupdate
      rw [List.length_append, List.length_take, min_eq_left hn]
      exact hroom
  | @splice p bytes events moved rest _ hcut _ =>
      have hp := hs p
      rw [hcut, List.length_append] at hp
      exact hupdate p rest (by omega)
  | @read p bytes consumed events buf rest _ hcut _ _ =>
      have hp := hs p
      rw [hcut, List.length_append] at hp
      exact hupdate p rest (by omega)
  | _ => exact hs

/-- In a turn some call of the thread comes next. -/
theorem logStep_enabled (conf : LoggerConf) (hs : s.Ready) (hpc : s.pc ≠ .waiting) :
    ∃ a, a.ofLogger = true ∧ (logStep conf s a).isSome := by
  unfold LogState.Ready at hs
  cases hat : s.pc with
  | waiting => contradiction
  | turn events =>
      cases events with
      | nil => exact ⟨.again, rfl, by simp [logStep, hat]⟩
      | cons p events =>
          by_cases hlow : (s.pipe p).length < conf.bufferLimit ∧ s.clk ≤ s.timeout
          · exact ⟨.skip p (s.pipe p).length, rfl, by simp [logStep, hat, hlow]⟩
          · exact ⟨.flush p (s.pipe p).length, rfl, by simp [logStep, hat, hlow]⟩
  | opening p bytes events => exact ⟨.opened p true, rfl, by simp [logStep, hat]⟩
  | splicing p bytes events =>
      rw [hat] at hs
      have hne : s.pipe p ≠ [] := List.length_pos_iff.mp (hs.2.2.1.trans_le hs.2.2.2)
      have htake : (s.pipe p).take bytes <+: s.pipe p := List.take_prefix ..
      have hlen : ((s.pipe p).take bytes).length ≤ bytes := List.length_take_le ..
      refine ⟨.splice p ((s.pipe p).take bytes), rfl, ?_⟩
      simp only [logStep, hat]
      rw [if_pos ⟨trivial, hne, htake, hlen⟩]
      rfl
  | draining p bytes consumed events =>
      rw [hat] at hs
      obtain ⟨-, -, hlt, hle⟩ := hs
      have hne : s.pipe p ≠ [] := List.length_pos_iff.mp (by omega)
      refine ⟨.read p ((s.pipe p).take drainBuf), rfl, ?_⟩
      simp only [logStep, hat]
      rw [if_pos ⟨trivial, hne, trivial⟩]
      rfl

/-- The calls that the thread still makes before it waits again, at most. -/
def LogState.work (conf : LoggerConf) (s : LogState) : Nat :=
  let rest (events : List LogPipe) := events.length * (conf.capacity + 2) + 1
  match s.pc with
  | .waiting => 0
  | .turn events => rest events
  | .opening _ bytes events => bytes + 1 + rest events
  | .splicing _ _ events => 1 + rest events
  | .draining _ bytes consumed events => bytes - consumed + rest events

/-- The calls of the thread among those of a run. -/
def loggerCalls (as : List LogAct) : List LogAct := as.filter LogAct.ofLogger

theorem loggerCalls_append (as bs : List LogAct) : loggerCalls (as ++ bs) = loggerCalls as ++ loggerCalls bs :=
  List.filter_append ..

/-- A call of the thread is one less to make; what the workers write does not matter. -/
theorem logStep_work (hready : s.Ready) (hfits : s.Fits conf) (h : logStep conf s a = some s')
    (hwait : ∀ events clk, a ≠ .wait events clk) :
    s'.work conf + (loggerCalls [a]).length ≤ s.work conf := by
  have hone : (loggerCalls [a]).length ≤ 1 := List.length_filter_le ..
  cases logStep_move h with
  | write => exact le_rfl
  | wait => exact absurd rfl (hwait _ _)
  | skip hpc _ _ =>
      simp only [LogState.work, hpc, List.length_cons, Nat.add_mul]
      omega
  | @flush p events hpc _ =>
      have hp := hfits p
      simp only [LogState.work, hpc, List.length_cons, Nat.add_mul]
      omega
  | opened hpc =>
      rw [LogState.Ready, hpc] at hready
      have hpos := hready.2.2.1
      simp only [LogState.work, hpc]
      omega
  | failed hpc =>
      simp only [LogState.work, hpc]
      omega
  | splice hpc _ _ =>
      simp only [LogState.work, hpc]
      omega
  | @read p bytes consumed events buf rest hpc _ hsome _ =>
      rw [LogState.Ready, hpc] at hready
      have hlt := hready.2.2.1
      have hpos := List.length_pos_iff.mpr hsome
      by_cases hmore : consumed + buf.length < bytes
      · simp only [LogState.work, hpc, if_pos hmore]
        omega
      · simp only [LogState.work, hpc, if_neg hmore]
        omega
  | again hpc =>
      simp only [LogState.work, hpc]
      omega

/-- The calls of the thread until it waits again. -/
theorem logRun_work (h : LogRun conf s as s') (hready : s.Ready) (hfits : s.Fits conf)
    (hwait : ∀ events clk, LogAct.wait events clk ∉ as) :
    s'.work conf + (loggerCalls as).length ≤ s.work conf := by
  induction h with
  | nil s => exact le_rfl
  | @cons s t s' a as hab _ ih =>
      have hstep := logStep_work hready hfits hab fun events clk heq => hwait events clk (by simp [heq])
      have hrest := ih (logStep_ready hready hab) (logStep_fits hfits hab)
        fun events clk hmem => hwait events clk (List.mem_cons_of_mem _ hmem)
      rw [← List.singleton_append, loggerCalls_append, List.length_append]
      omega

/-- **The thread of the logger never blocks but in `epoll_wait`**, and there only when all the
pipes are empty; between two waits it makes a bounded number of calls, whatever the workers
write meanwhile. -/
theorem logRun_live (h : LogRun conf s as s') (hpc : s.pc = .waiting) (hfits : s.Fits conf) :
    ((s'.pc = .waiting ∧ ∀ p, s'.pipe p = []) ∨ ∃ a, a.ofLogger = true ∧ (logStep conf s' a).isSome) ∧
      ∀ pre events clk post, as = pre ++ .wait events clk :: post → (∀ es c, LogAct.wait es c ∉ post) →
        (loggerCalls post).length ≤ events.length * (conf.capacity + 2) + 1 := by
  have hready : s.Ready := by
    rw [LogState.Ready, hpc]
    trivial
  constructor
  · have hready' := h.invariant (fun _ _ _ hs hab => logStep_ready hs hab) hready
    by_cases hwaiting : s'.pc = .waiting
    · by_cases hempty : ∀ p, s'.pipe p = []
      · exact .inl ⟨hwaiting, hempty⟩
      · obtain ⟨p, hp⟩ := not_forall.mp hempty
        refine .inr ⟨.wait [p] 0, rfl, ?_⟩
        simp [logStep, hwaiting, hp]
    · exact .inr (logStep_enabled conf hready' hwaiting)
  · rintro pre events clk post rfl hwait
    obtain ⟨t, hpre, hrest⟩ := h.of_append
    cases hrest with
    | @cons _ u _ _ _ hab hpost =>
        have hready' := logStep_ready (hpre.invariant (fun _ _ _ hs hab => logStep_ready hs hab) hready) hab
        have hfits' := logStep_fits (hpre.invariant (fun _ _ _ hs hab => logStep_fits hs hab) hfits) hab
        have hwork := logRun_work hpost hready' hfits' hwait
        have hturn : u.pc = .turn events := by
          cases logStep_move hab
          rfl
        simp only [LogState.work, hturn] at hwork
        omega

end

theorem logRun_live_one : (loggerCalls (oneLine.drop 5)).length ≤ 1 * (65536 + 2) + 1 := by
  have hrun : LogRun oneLog logStart oneLine _ := Run.of_foldlM rfl
  have hfits : logStart.Fits oneLog := fun p => Nat.zero_le _
  exact (logRun_live hrun rfl hfits).2 (oneLine.take 4) [.access 0] 4 (oneLine.drop 5) rfl (by simp [oneLine])

section

variable {conf : LoggerConf} {s s' : LogState} {a : LogAct} {as : List LogAct} {p : LogPipe}

/-! ## the flush timeout -/

/-- The thread is at the first pipe of a turn, or the timeout is not over, or no pipe is next. -/
def AtFirst (bs : List LogAct) (s : LogState) : Prop :=
  (∃ cs events clk, loggerCalls bs = cs ++ [.wait events clk] ∧ s.pc = .turn events) ∨
    s.clk ≤ s.timeout ∨ s.pc = .waiting ∨ s.pc = .turn []

theorem logStep_atFirst {bs : List LogAct} (hs : AtFirst bs s) (h : logStep conf s a = some s') :
    AtFirst (bs ++ [a]) s' := by
  have hpos := conf.timeout_pos
  unfold AtFirst at hs ⊢
  rw [loggerCalls_append]
  -- a file is handled only behind a `flush`, which has set the timeout
  have hlate : s.pc ≠ .waiting → (∀ events, s.pc ≠ .turn events) → s.clk ≤ s.timeout := by
    intro hwaiting hturn
    rcases hs with ⟨cs, events, clk, -, hpc⟩ | hlate | hpc | hpc
    · exact absurd hpc (hturn _)
    · exact hlate
    · exact absurd hpc hwaiting
    · exact absurd hpc (hturn _)
  cases logStep_move h with
  | write => simpa [loggerCalls, LogAct.ofLogger] using hs
  | wait => exact .inl ⟨_, _, _, rfl, rfl⟩
  | skip _ _ hearly => exact .inr (.inl hearly)
  | flush => exact .inr (.inl (by dsimp only; omega))
  | again => exact .inr (.inr (.inl rfl))
  | opened hpc => exact .inr (.inl (hlate (by simp [hpc]) (by simp [hpc])))
  | failed hpc => exact .inr (.inl (hlate (by simp [hpc]) (by simp [hpc])))
  | splice hpc => exact .inr (.inl (hlate (by simp [hpc]) (by simp [hpc])))
  | read hpc => exact .inr (.inl (hlate (by simp [hpc]) (by simp [hpc])))

/-- **The flush timeout is one for all pipes**: a pipe that is not filled to the limit is
emptied only as the first one of a turn. -/
theorem logRun_flush_first (h : LogRun conf s as s') (hpc : s.pc = .waiting) {pre post : List LogAct} {bytes : Nat}
    (has : as = pre ++ .flush p bytes :: post) (hlow : bytes < conf.bufferLimit) :
    ∃ cs events clk, loggerCalls pre = cs ++ [.wait (p :: events) clk] := by
  subst has
  obtain ⟨t, hpre, hrest⟩ := h.of_append
  have hfirst := hpre.history (J := AtFirst) (fun _ _ _ _ hs hab => logStep_atFirst hs hab)
    (.inr (.inr (.inl hpc)))
  cases hrest with
  | cons hab _ =>
      cases logStep_move hab with
      | @flush _ events hturn hdue =>
          rcases hfirst with ⟨cs, events', clk, hcalls, hpc'⟩ | hearly | hpc' | hpc'
          · rw [hturn] at hpc'
            cases hpc'
            exact ⟨cs, events, clk, hcalls⟩
          · exact absurd ⟨hlow, hearly⟩ hdue
          · rw [hturn] at hpc'
            contradiction
          · rw [hturn] at hpc'
            cases hpc'

end

theorem logRun_flush_first_one :
    ∃ cs events clk, loggerCalls (oneLine.take 5) = cs ++ [.wait (.access 0 :: events) clk] := by
  have hrun : LogRun oneLog logStart oneLine _ := Run.of_foldlM rfl
  have hcut : oneLine = oneLine.take 5 ++ .flush (.access 0) 2 :: oneLine.drop 6 := rfl
  exact logRun_flush_first hrun rfl hcut (by decide)

end Monkey.Logger
