import Monkey.Plugins.Hooks
import Monkey.Worker.Queues

/-!
# Monkey.Plugins.Dispatch

Which plugin an event on the socket of a client comes to.

`cgi` and `palm` answer `MK_PLUGIN_RET_EVENT_CONTINUE` for a client they do not know, which
ends the search; only `fastcgi` passes.  So the plugin that holds the client is asked only
if neither of the others stands before it.  The close and error hooks of `cgi` look for a
pipe, and never find the client.
-/

namespace Monkey.Plugins

open Fastcgi (requestListGetByFd fcgiFdListGetByFd)

/-! ## the three functions -/

inductive EventKind
  | write | error | close
deriving DecidableEq, Repr

/-- The hook of a plugin for a kind of event. -/
def EventKind.hook (config : Fastcgi.FcgiConfig) : EventKind → Plugin → Option Hook
  | .write => Plugin.eventWrite config
  | .error => Plugin.eventError config
  | .close => Plugin.eventClose config

/-- The function of the core for a kind of event. -/
def EventKind.ask (config : Fastcgi.FcgiConfig) :
    EventKind → List Plugin → HookIo → Thread → Int → Reply
  | .write => mkPluginEventWrite config
  | .error => mkPluginEventError config
  | .close => mkPluginEventClose config

theorem EventKind.ask_eq (config : Fastcgi.FcgiConfig) (k : EventKind) :
    k.ask config = mkPluginEvent (k.hook config) := by
  cases k <;> rfl

/-! ## clients -/

/-- The plugin has taken over the socket. -/
def Plugin.holds (t : Thread) (socket : Int) : Plugin → Bool
  | .cgi => (cgiReqGet t socket).isSome
  | .palm => (mkPalmRequestGetByHttp t socket).isSome
  | .fastcgi => (requestListGetByFd t.fcgi.rl socket).2.isSome
  | .other => false

/-- The socket is a client's: no plugin reads it as a pipe or a connection of a server, and
at most one has taken it over. -/
structure ClientSocket (t : Thread) (socket : Int) : Prop where
  nonneg : 0 ≤ socket
  not_pipe : ∀ r ∈ t.cgi, r.fd ≠ socket
  not_palm : ∀ pr ∈ t.palm, pr.palmFd ≠ socket
  not_backend : ∀ f ∈ t.fcgi.fds, f.fd ≠ socket
  one : ∀ p q : Plugin, p.holds t socket → q.holds t socket → p = q

/-! ## the cache of fastcgi

A search that fails may give up an entry of the cache, and changes nothing else. -/

def Thread.withCache (t : Thread) (cache : Fastcgi.RequestCache) : Thread :=
  { t with fcgi := { t.fcgi with rl := { t.fcgi.rl with cache := cache } } }

/-- The thread but for the cache. -/
def Thread.seen (t : Thread) : Thread := t.withCache Fastcgi.requestCacheInit

def Reply.seen (r : Reply) : Reply :=
  { r with outcome := r.outcome.map fun o => (o.1, o.2.1.seen, o.2.2) }

@[simp]
theorem Thread.seen_withCache (t : Thread) (cache : Fastcgi.RequestCache) : (t.withCache cache).seen = t.seen := rfl

theorem requestListGetByFd_fst (rl : Fastcgi.RequestList) (fd : Int) :
    ∃ cache, (requestListGetByFd rl fd).1 = { rl with cache := cache } := by
  simp only [requestListGetByFd]
  split
  · exact ⟨_, rfl⟩
  · split <;> exact ⟨_, rfl⟩

/-- Whether a request is found does not depend on the cache. -/
theorem requestListGetByFd_isSome {rl : Fastcgi.RequestList} {fd : Int} (hfd : 0 ≤ fd) :
    (requestListGetByFd rl fd).2.isSome = rl.rs.any (·.fd == fd) := by
  rw [Bool.eq_iff_iff, List.any_eq_true]
  constructor
  · intro h
    obtain ⟨r, hr⟩ := Option.isSome_iff_exists.mp h
    have hget := Fastcgi.requestListGetByFd_some hr
    by_cases hlt : r < rl.rs.length
    · rw [List.getD_eq_getElem _ _ hlt] at hget
      exact ⟨rl.rs[r], List.getElem_mem hlt, by simpa using hget⟩
    · -- the request behind the end of the list has no descriptor
      rw [List.getD_eq_default _ _ (by omega)] at hget
      exact absurd hget (by simp only; omega)
  · rintro ⟨q, hq, hfound⟩
    obtain ⟨i, hi, rfl⟩ := List.getElem_of_mem hq
    by_contra hnone
    have hne := Fastcgi.requestListGetByFd_none (Option.not_isSome_iff_eq_none.mp hnone) hi
    rw [List.getD_eq_getElem _ _ hi] at hne
    exact hne (by simpa using hfound)

theorem Plugin.holds_withCache {t : Thread} {s : Int} (hs : 0 ≤ s) (cache : Fastcgi.RequestCache) (p : Plugin) :
    p.holds (t.withCache cache) s = p.holds t s := by
  cases p with
  | fastcgi => simp only [holds, requestListGetByFd_isSome hs]; rfl
  | _ => rfl

namespace ClientSocket

variable {t : Thread} {s : Int} (hs : ClientSocket t s)
include hs

theorem withCache (cache : Fastcgi.RequestCache) : ClientSocket (t.withCache cache) s where
  nonneg := hs.nonneg
  not_pipe := hs.not_pipe
  not_palm := hs.not_palm
  not_backend := hs.not_backend
  one p q := by
    rw [Plugin.holds_withCache hs.nonneg, Plugin.holds_withCache hs.nonneg]
    exact hs.one p q

theorem cgiReqGetByFd_eq : cgiReqGetByFd t s = none := by
  simpa [cgiReqGetByFd] using hs.not_pipe

theorem mkPalmRequestGet_eq : mkPalmRequestGet t s = none := by
  simpa [mkPalmRequestGet] using hs.not_palm

theorem fcgiFdListGetByFd_eq : fcgiFdListGetByFd t.fcgi.fds s = none := by
  simpa [fcgiFdListGetByFd, List.findIdx?_eq_none_iff] using hs.not_backend

end ClientSocket

/-! ## what the hooks do for a client -/

/-- The hook finds the request of the client. -/
structure Answer.Finds (a : Answer) (socket : Int) : Prop where
  request : a.request = some socket
  stays : ∀ o ∈ a.outcome, o.ret ≠ .next

/-- The hook of the plugin, for this kind of event, looks for the client. -/
def EventKind.looks (k : EventKind) (p : Plugin) : Bool := k = .write || p ≠ .cgi

/-- What a plugin answers for a client it does not find. -/
def Plugin.passing : Plugin → EventRet
  | .fastcgi => .next
  | _ => .continue

section hooks

variable {config : Fastcgi.FcgiConfig} {io : HookIo} {t : Thread} {s : Int}

theorem cgiEventWrite_finds (h : Plugin.cgi.holds t s) : (cgiEventWrite io t s).Finds s := by
  obtain ⟨r, hr⟩ := Option.isSome_iff_exists.mp h
  simp only [cgiEventWrite, hr]
  refine ⟨rfl, fun o ho => ?_⟩
  simp only at ho
  split at ho
  · contradiction
  · obtain rfl := Option.some.inj ho
    exact EventRet.noConfusion

theorem palmEventWrite_finds (h : Plugin.palm.holds t s) : (palmEventWrite io t s).Finds s := by
  obtain ⟨pr, hpr⟩ := Option.isSome_iff_exists.mp h
  have hfd := (find?_key_eq_some hpr).2
  simp only [palmEventWrite, hpr]
  refine ⟨congrArg some hfd, fun o ho => ?_⟩
  obtain rfl := Option.some.inj ho
  exact EventRet.noConfusion

theorem palmHangup_finds (hs : ClientSocket t s) (h : Plugin.palm.holds t s) : (palmHangup io t s).Finds s := by
  obtain ⟨pr, hpr⟩ := Option.isSome_iff_exists.mp h
  have hfd := (find?_key_eq_some hpr).2
  simp only [palmHangup, hs.mkPalmRequestGet_eq, hpr]
  refine ⟨congrArg some hfd, fun o ho => ?_⟩
  obtain rfl := Option.some.inj ho
  exact EventRet.noConfusion

theorem eventWriteClient_ret {ctx : Fastcgi.FcgiContext} {r : Nat} {wio : Fastcgi.WriteIo} {ret : Fastcgi.HookRet}
    (h : Fastcgi.eventWriteClient config ctx r s wio = some ret) : ret.ret ≠ .next := by
  rintro hnext
  simp only [Fastcgi.eventWriteClient, Fastcgi.eventWriteError] at h
  grind

theorem fcgiClient_eq (hs : ClientSocket t s) :
    fcgiClient t.fcgi s = if Plugin.fastcgi.holds t s then some s else none := by
  have hmap (o : Option Nat) : o.map (fun _ => s) = if o.isSome then some s else none := by
    cases o <;> rfl
  simp only [fcgiClient, hs.fcgiFdListGetByFd_eq]
  exact hmap _

theorem fcgiEventWrite_finds (hs : ClientSocket t s) (h : Plugin.fastcgi.holds t s) :
    (fcgiEventWrite config io t s).Finds s := by
  refine ⟨(fcgiClient_eq hs).trans (if_pos h), fun o ho => ?_⟩
  obtain ⟨ret, hret, rfl⟩ := Option.map_eq_some_iff.mp ho
  obtain ⟨r, hr⟩ := Option.isSome_iff_exists.mp h
  simp only [Fastcgi.eventWrite, hs.fcgiFdListGetByFd_eq] at hret
  split at hret
  · next hnone => exact absurd (hr.symm.trans (congrArg Prod.snd hnone)) (by simp)
  · exact eventWriteClient_ret hret

theorem fcgiHangup_finds (hs : ClientSocket t s) (h : Plugin.fastcgi.holds t s) :
    (fcgiHangup config io t s).Finds s := by
  refine ⟨(fcgiClient_eq hs).trans (if_pos h), fun o ho => ?_⟩
  obtain rfl := Option.some.inj ho
  obtain ⟨r, hr⟩ := Option.isSome_iff_exists.mp h
  simp only [fcgiOutcome, Fastcgi.hangup, hs.fcgiFdListGetByFd_eq]
  split
  · next hnone => exact absurd (hr.symm.trans (congrArg Prod.snd hnone)) (by simp)
  · exact EventRet.noConfusion

variable (io) in
/-- A hook that looks for the client finds it. -/
theorem EventKind.hook_finds {k : EventKind} {p : Plugin} {h : Hook} (hs : ClientSocket t s)
    (hh : k.hook config p = some h) (hp : p.holds t s) (hk : k.looks p) : (h io t s).Finds s := by
  cases p with
  | cgi =>
      cases k with
      | write =>
          obtain rfl := Option.some.inj hh
          exact cgiEventWrite_finds hp
      | error => exact absurd hk (by decide)
      | close => exact absurd hk (by decide)
  | palm =>
      cases k with
      | write =>
          obtain rfl := Option.some.inj hh
          exact palmEventWrite_finds hp
      | error | close =>
          obtain rfl := Option.some.inj hh
          exact palmHangup_finds hs hp
  | fastcgi =>
      cases k with
      | write =>
          obtain rfl := Option.some.inj hh
          exact fcgiEventWrite_finds hs hp
      | error | close =>
          obtain rfl := Option.some.inj hh
          exact fcgiHangup_finds hs hp
  | other => cases k <;> contradiction

variable (config io) in
theorem fcgi_stranger (hs : ClientSocket t s) (h : Plugin.fastcgi.holds t s = false) :
    ∃ cache, fcgiEventWrite config io t s = .stranger .next (t.withCache cache) ∧
      fcgiHangup config io t s = .stranger .next (t.withCache cache) := by
  have hnone : (requestListGetByFd t.fcgi.rl s).2 = none := by simpa [Plugin.holds] using h
  obtain ⟨cache, hcache⟩ := requestListGetByFd_fst t.fcgi.rl s
  have hget : requestListGetByFd t.fcgi.rl s = ({ t.fcgi.rl with cache := cache }, none) := Prod.ext hcache hnone
  have hclient : fcgiClient t.fcgi s = none := (fcgiClient_eq hs).trans (if_neg (by simp [h]))
  refine ⟨cache, ?_, ?_⟩
  · simp only [fcgiEventWrite, hclient, Fastcgi.eventWrite, hs.fcgiFdListGetByFd_eq, hget]
    rfl
  · simp only [fcgiHangup, hclient, Fastcgi.hangup, hs.fcgiFdListGetByFd_eq, hget]
    rfl

variable (io) in
/-- A hook that does not find the client leaves everything but the cache as it is. -/
theorem EventKind.hook_stranger {k : EventKind} {p : Plugin} {h : Hook} (hs : ClientSocket t s)
    (hh : k.hook config p = some h) (hp : (p.holds t s && k.looks p) = false) :
    ∃ cache, h io t s = .stranger p.passing (t.withCache cache) := by
  cases p with
  | cgi =>
      refine ⟨t.fcgi.rl.cache, ?_⟩
      cases k with
      | write =>
          obtain rfl := Option.some.inj hh
          have hnone : cgiReqGet t s = none := by simpa [Plugin.holds, EventKind.looks] using hp
          simp only [cgiEventWrite, hnone]
          rfl
      | error | close =>
          obtain rfl := Option.some.inj hh
          simp only [cgiHangup, hs.cgiReqGetByFd_eq]
          rfl
  | palm =>
      have hnone : mkPalmRequestGetByHttp t s = none := by simpa [Plugin.holds, EventKind.looks] using hp
      refine ⟨t.fcgi.rl.cache, ?_⟩
      cases k with
      | write =>
          obtain rfl := Option.some.inj hh
          simp only [palmEventWrite, hnone]
          rfl
      | error | close =>
          obtain rfl := Option.some.inj hh
          simp only [palmHangup, hs.mkPalmRequestGet_eq, hnone]
          rfl
  | fastcgi =>
      have hholds : Plugin.fastcgi.holds t s = false := by simpa [EventKind.looks] using hp
      obtain ⟨cache, hwrite, hhangup⟩ := fcgi_stranger config io hs hholds
      refine ⟨cache, ?_⟩
      cases k with
      | write =>
          obtain rfl := Option.some.inj hh
          exact hwrite
      | error | close =>
          obtain rfl := Option.some.inj hh
          exact hhangup
  | other => cases k <;> contradiction

theorem cgiEventWrite_withCache (cache : Fastcgi.RequestCache) :
    ((cgiEventWrite io (t.withCache cache) s).reply .cgi).seen = ((cgiEventWrite io t s).reply .cgi).seen := by
  simp only [cgiEventWrite, show cgiReqGet (t.withCache cache) s = cgiReqGet t s from rfl]
  cases cgiReqGet t s with
  | none => rfl
  | some r =>
      by_cases hstop : (r.relay.eventWrite io.ctx io.beyond).aborted
      · simp only [hstop]
        rfl
      · simp only [hstop]
        rfl

theorem palmEventWrite_withCache (cache : Fastcgi.RequestCache) :
    ((palmEventWrite io (t.withCache cache) s).reply .palm).seen = ((palmEventWrite io t s).reply .palm).seen := by
  simp only [palmEventWrite, show mkPalmRequestGetByHttp (t.withCache cache) s = mkPalmRequestGetByHttp t s from rfl]
  cases mkPalmRequestGetByHttp t s <;> rfl

theorem palmHangup_withCache (cache : Fastcgi.RequestCache) :
    ((palmHangup io (t.withCache cache) s).reply .palm).seen = ((palmHangup io t s).reply .palm).seen := by
  simp only [palmHangup, show mkPalmRequestGet (t.withCache cache) s = mkPalmRequestGet t s from rfl,
    show mkPalmRequestGetByHttp (t.withCache cache) s = mkPalmRequestGetByHttp t s from rfl]
  cases mkPalmRequestGet t s with
  | some pr => rfl
  | none => cases mkPalmRequestGetByHttp t s <;> rfl

/-- The hooks of the other plugins do not look at the cache. -/
theorem EventKind.hook_withCache {k : EventKind} {p : Plugin} {h : Hook} (hs : ClientSocket t s)
    (hh : k.hook config p = some h) (hp : p ≠ .fastcgi) (cache : Fastcgi.RequestCache) :
    ((h io (t.withCache cache) s).reply p).seen = ((h io t s).reply p).seen := by
  cases p with
  | cgi =>
      cases k with
      | write =>
          obtain rfl := Option.some.inj hh
          exact cgiEventWrite_withCache cache
      | error | close =>
          obtain rfl := Option.some.inj hh
          simp only [cgiHangup, hs.cgiReqGetByFd_eq, (hs.withCache cache).cgiReqGetByFd_eq]
          rfl
  | palm =>
      cases k with
      | write =>
          obtain rfl := Option.some.inj hh
          exact palmEventWrite_withCache cache
      | error | close =>
          obtain rfl := Option.some.inj hh
          exact palmHangup_withCache cache
  | fastcgi => contradiction
  | other => cases k <;> contradiction

end hooks

/-! ## asking the plugins -/

/-- The plugin answers, and does not pass. -/
def Plugin.answers (t : Thread) (socket : Int) (p : Plugin) : Bool :=
  p = .cgi || p = .palm || p = .fastcgi && p.holds t socket

/-- The thread while the plugins are asked: `fastcgi` may have searched its cache for a client
that is not its own. -/
def Asking (t : Thread) (socket : Int) (t' : Thread) : Prop :=
  ∃ cache, t' = t.withCache cache ∧ (Plugin.fastcgi.holds t socket → t' = t)

section dispatch

variable {config : Fastcgi.FcgiConfig} {k : EventKind} {io : HookIo} {t : Thread} {s : Int}

theorem Asking.refl (t : Thread) (s : Int) : Asking t s t := ⟨t.fcgi.rl.cache, rfl, fun _ => rfl⟩

theorem Asking.client {t' : Thread} (h : Asking t s t') (hs : ClientSocket t s) : ClientSocket t' s := by
  obtain ⟨cache, rfl, -⟩ := h
  exact hs.withCache cache

theorem Asking.holds {t' : Thread} (h : Asking t s t') (hs : ClientSocket t s) (p : Plugin) :
    p.holds t' s = p.holds t s := by
  obtain ⟨cache, rfl, -⟩ := h
  exact Plugin.holds_withCache hs.nonneg cache p

theorem Asking.seen {t' : Thread} (h : Asking t s t') : t'.seen = t.seen := by
  obtain ⟨cache, rfl, -⟩ := h
  rfl

theorem askPlugin_answered {p : Plugin} {h : Hook} (hh : k.hook config p = some h)
    (hstays : ∀ o ∈ (h io t s).outcome, o.ret ≠ .next) :
    askPlugin (k.hook config) io s p t = .answered (h io t s) := by
  simp only [askPlugin, hh]
  split
  · next hnext => exact absurd rfl (hstays _ (by rw [hnext]; rfl))
  · rfl

theorem eq_of_askPlugin {p : Plugin} {h : Hook} {a : Answer} (hh : k.hook config p = some h)
    (hask : askPlugin (k.hook config) io s p t = .answered a) : a = h io t s := by
  simp only [askPlugin, hh] at hask
  split at hask
  · contradiction
  · exact (Asked.answered.inj hask).symm

theorem Plugin.ne_other_of_answers {p : Plugin} (h : p.answers t s) : p ≠ .other := by
  rintro rfl
  contradiction

theorem EventKind.hook_of_ne (config : Fastcgi.FcgiConfig) (k : EventKind) {p : Plugin} (h : p ≠ .other) :
    ∃ hook, k.hook config p = some hook := by
  cases p with
  | other => contradiction
  | _ => cases k <;> exact ⟨_, rfl⟩

variable (config k io) in
/-- Only `fastcgi` and the plugins without hooks pass. -/
theorem answering (hs : ClientSocket t s) :
    Answering (askPlugin (k.hook config) io s) (Asking t s) (Plugin.answers t s) where
  passed p t' ht' hp := by
    cases p with
    | cgi => contradiction
    | palm => contradiction
    | other =>
        refine ⟨t', ht', ?_⟩
        cases k <;> rfl
    | fastcgi =>
        have hfree : Plugin.fastcgi.holds t s = false := hp
        obtain ⟨h, hh⟩ := k.hook_of_ne config (p := .fastcgi) (by decide)
        obtain ⟨cache, hcache⟩ := EventKind.hook_stranger io (ht'.client hs) hh
          (by rw [ht'.holds hs, hfree]; rfl)
        refine ⟨t'.withCache cache, ?_, ?_⟩
        · obtain ⟨_, rfl, -⟩ := ht'
          exact ⟨cache, rfl, fun hholds => absurd hholds (by simp [hfree])⟩
        · simp only [askPlugin, hh, hcache]
          rfl
  answered p t' ht' hp := by
    obtain ⟨h, hh⟩ := k.hook_of_ne config (Plugin.ne_other_of_answers hp)
    refine ⟨h io t' s, askPlugin_answered hh ?_⟩
    cases hfinds : p.holds t' s && k.looks p with
    | true =>
        rw [Bool.and_eq_true] at hfinds
        exact (EventKind.hook_finds io (ht'.client hs) hh hfinds.1 hfinds.2).stays
    | false =>
        obtain ⟨cache, hcache⟩ := EventKind.hook_stranger io (ht'.client hs) hh hfinds
        rw [hcache]
        intro o ho
        obtain rfl := Option.some.inj ho
        cases p with
        | fastcgi =>
            have hholds : Plugin.fastcgi.holds t s := hp
            rw [ht'.holds hs, hholds] at hfinds
            exact absurd hfinds (by simp [EventKind.looks])
        | other => contradiction
        | cgi => exact EventRet.noConfusion
        | palm => exact EventRet.noConfusion

theorem Asking.reply_seen {t' : Thread} {p : Plugin} {h : Hook} (ht' : Asking t s t') (hs : ClientSocket t s)
    (hh : k.hook config p = some h) (hp : p.holds t s) :
    ((h io t' s).reply p).seen = ((h io t s).reply p).seen := by
  obtain ⟨cache, rfl, hkept⟩ := ht'
  by_cases hfcgi : p = .fastcgi
  · subst hfcgi
    rw [hkept hp]
  · exact EventKind.hook_withCache hs hh hfcgi cache

/-- The plugin that decides an event: the one that has registered the descriptor, else the
first that answers. -/
def decider (plugins : List Plugin) (t : Thread) (socket : Int) : Option Plugin :=
  match (mkPluginEventGet t socket).filter (· ≠ .other) with
  | some p => some p
  | none => plugins.find? (Plugin.answers t socket)

variable (config k io) in
/-- The answer of the core is the answer of the plugin that decides. -/
theorem mkPluginEvent_eq (hs : ClientSocket t s) (plugins : List Plugin) :
    ∃ t', Asking t s t' ∧
      match decider plugins t s with
      | none => mkPluginEvent (k.hook config) plugins io t s = ⟨none, some (none, t', [])⟩
      | some p => ∃ h, k.hook config p = some h ∧
          mkPluginEvent (k.hook config) plugins io t s = (h io t' s).reply p := by
  have hregistered : ((mkPluginEventGet t s).bind fun p => (k.hook config p).map (p, ·)) =
      ((mkPluginEventGet t s).filter (· ≠ .other)).bind fun p => (k.hook config p).map (p, ·) := by
    cases mkPluginEventGet t s with
    | none => rfl
    | some p =>
        by_cases hp : p = .other
        · subst hp
          cases k <;> rfl
        · simp [Option.filter, hp]
  unfold mkPluginEvent decider
  rw [hregistered]
  cases hevent : (mkPluginEventGet t s).filter (· ≠ .other) with
  | some p =>
      have hp : p ≠ .other := by simpa using (Option.filter_eq_some_iff.mp hevent).2
      obtain ⟨h, hh⟩ := k.hook_of_ne config hp
      exact ⟨t, .refl t s, h, hh, by simp [hh]⟩
  | none =>
      have hchain := answering config k io hs
      simp only [Option.bind_none, askPlugins]
      cases hfind : plugins.find? (Plugin.answers t s) with
      | none =>
          obtain ⟨t', ht', hask⟩ := hchain.askAll_none hfind (.refl t s)
          exact ⟨t', ht', by rw [hask]⟩
      | some p =>
          obtain ⟨t', a, ht', hask, hall⟩ := hchain.askAll_some hfind (.refl t s)
          obtain ⟨h, hh⟩ := k.hook_of_ne config (Plugin.ne_other_of_answers (List.find?_some hfind))
          obtain rfl := eq_of_askPlugin hh hask
          exact ⟨t', ht', h, hh, by rw [hall]⟩

end dispatch

/-! ## the events of a client -/

/-- The core goes on with the event itself, and no plugin has done anything. -/
def Reply.FallsThrough (r : Reply) (t : Thread) : Prop :=
  ∃ ret t', r.outcome = some (ret, t', []) ∧ ret.all EventRet.passes ∧ t'.seen = t.seen

/-- An event of a client is handled: by the plugin that holds it, which finds the request and
whose own answer is the outcome, or by the core. -/
structure Handled (config : Fastcgi.FcgiConfig) (k : EventKind) (plugins : List Plugin) (io : HookIo) (t : Thread)
    (socket : Int) : Prop where
  held (p : Plugin) : p.holds t socket → ∃ h, k.hook config p = some h ∧
    (k.ask config plugins io t socket).request = some (p, socket) ∧
    (k.ask config plugins io t socket).seen = ((h io t socket).reply p).seen
  free : (∀ p : Plugin, p.holds t socket = false) → (k.ask config plugins io t socket).FallsThrough t

/-- The event comes to the plugin: it has registered the descriptor, or nobody has and
neither `cgi` nor `palm` stands before it. -/
def ComesTo (plugins : List Plugin) (t : Thread) (socket : Int) (p : Plugin) : Prop :=
  match (mkPluginEventGet t socket).filter (· ≠ .other) with
  | some q => q = p
  | none => plugins.find? (fun q => q = p || q = .cgi || q = .palm) = some p

section handled

variable {config : Fastcgi.FcgiConfig} {k : EventKind} {io : HookIo} {t : Thread} {s : Int}

theorem comesTo_iff {plugins : List Plugin} {p : Plugin} (hs : ClientSocket t s) (hp : p.holds t s) :
    ComesTo plugins t s p ↔ decider plugins t s = some p := by
  have hanswers (q : Plugin) : (decide (q = p) || decide (q = .cgi) || decide (q = .palm)) = q.answers t s := by
    by_cases hq : q = p
    · subst hq
      cases q with
      | other => contradiction
      | fastcgi => simp [Plugin.answers, hp]
      | _ => rfl
    · have hfree : q.holds t s = false := by
        by_contra hholds
        exact hq (hs.one q p (by simpa using hholds) hp)
      simp [Plugin.answers, hq, hfree]
  unfold ComesTo decider
  split
  · simp
  · rw [funext hanswers]

theorem looks_iff {p : Plugin} : k.looks p = true ↔ k = .write ∨ p ≠ .cgi := by
  simp [EventKind.looks]

/-- Without a plugin that holds the client the core goes on. -/
theorem fallsThrough (hs : ClientSocket t s) (plugins : List Plugin) (hfree : ∀ p : Plugin, p.holds t s = false) :
    (k.ask config plugins io t s).FallsThrough t := by
  obtain ⟨t', ht', hask⟩ := mkPluginEvent_eq config k io hs plugins
  rw [k.ask_eq]
  cases hdecider : decider plugins t s with
  | none =>
      simp only [hdecider] at hask
      exact ⟨none, t', by rw [hask], rfl, ht'.seen⟩
  | some p =>
      simp only [hdecider] at hask
      obtain ⟨h, hh, hask⟩ := hask
      obtain ⟨cache, hstranger⟩ := EventKind.hook_stranger io (ht'.client hs) hh
        (by rw [ht'.holds hs, hfree p]; rfl)
      refine ⟨some p.passing, t'.withCache cache, by rw [hask, hstranger]; rfl, ?_, ht'.seen⟩
      cases p <;> rfl

/-- The plugin that holds the client is asked, and looks for it. -/
theorem decides_of_request {plugins : List Plugin} {p : Plugin} (hs : ClientSocket t s)
    (h : (k.ask config plugins io t s).request = some (p, s)) : decider plugins t s = some p ∧ k.looks p := by
  obtain ⟨t', ht', hask⟩ := mkPluginEvent_eq config k io hs plugins
  rw [k.ask_eq] at h
  cases hdecider : decider plugins t s with
  | none =>
      simp only [hdecider] at hask
      rw [hask] at h
      contradiction
  | some q =>
      simp only [hdecider] at hask
      obtain ⟨hook, hh, hask⟩ := hask
      rw [hask] at h
      obtain ⟨client, hclient, hpair⟩ := Option.map_eq_some_iff.mp h
      obtain ⟨rfl, rfl⟩ := Prod.mk.inj hpair
      refine ⟨rfl, ?_⟩
      by_contra hlooks
      obtain ⟨cache, hstranger⟩ := EventKind.hook_stranger io (ht'.client hs) hh (by simp [hlooks])
      rw [hstranger] at hclient
      contradiction

/-- An event of a client is handled, in whatever order the plugins are loaded, exactly if it
comes to the plugin that holds the client, and is no error or close event of `cgi`. -/
theorem handled_iff (config : Fastcgi.FcgiConfig) (k : EventKind) (plugins : List Plugin) (io : HookIo) {t : Thread}
    {s : Int} (hs : ClientSocket t s) :
    Handled config k plugins io t s ↔
      ∀ p : Plugin, p.holds t s → ComesTo plugins t s p ∧ (k = .write ∨ p ≠ .cgi) := by
  constructor
  · intro hhandled p hp
    obtain ⟨-, -, hrequest, -⟩ := hhandled.held p hp
    obtain ⟨hdecider, hlooks⟩ := decides_of_request hs hrequest
    exact ⟨(comesTo_iff hs hp).mpr hdecider, looks_iff.mp hlooks⟩
  · intro h
    refine ⟨fun p hp => ?_, fallsThrough hs plugins⟩
    obtain ⟨hcomes, hlooks⟩ := h p hp
    obtain ⟨t', ht', hask⟩ := mkPluginEvent_eq config k io hs plugins
    simp only [(comesTo_iff hs hp).mp hcomes] at hask
    obtain ⟨hook, hh, hask⟩ := hask
    rw [k.ask_eq, hask]
    have hfinds := EventKind.hook_finds io (ht'.client hs) hh
      ((ht'.holds hs p).trans hp) (looks_iff.mpr hlooks)
    exact ⟨hook, hh, by rw [Answer.reply, hfinds.request]; rfl, ht'.reply_seen hs hh hp⟩

/-! ## an order that loses an event -/

/-- A thread on which `fastcgi` has taken over the socket 9, and has the whole response. -/
def fastcgiThread : Thread where
  fcgi := { rl := { idOffset := 1, rs := [{ state := .ended, fd := 9 }] } }

def fastcgiIo : HookIo where
  ctx := sampleCtx
  fcgi := { sent := .wrote 0 }

theorem fastcgiThread_holds : ∀ p : Plugin, p.holds fastcgiThread 9 ↔ p = .fastcgi
  | .cgi => by decide
  | .palm => by decide
  | .fastcgi => by decide
  | .other => by decide

theorem fastcgiThread_client : ClientSocket fastcgiThread 9 where
  nonneg := by decide
  not_pipe := by simp [fastcgiThread]
  not_palm := by simp [fastcgiThread]
  not_backend := by simp [fastcgiThread]
  one p q hp hq := ((fastcgiThread_holds p).mp hp).trans ((fastcgiThread_holds q).mp hq).symm

theorem handled_fastcgi_first : Handled {} .write [.fastcgi, .cgi] fastcgiIo fastcgiThread 9 := by
  refine (handled_iff {} .write [.fastcgi, .cgi] fastcgiIo fastcgiThread_client).mpr fun p hp => ?_
  obtain rfl := (fastcgiThread_holds p).mp hp
  exact ⟨rfl, .inl rfl⟩

theorem not_handled_every_order : ¬ ∀ (config : Fastcgi.FcgiConfig) (k : EventKind) (plugins : List Plugin)
    (io : HookIo) (t : Thread) (s : Int), ClientSocket t s → Handled config k plugins io t s := by
  intro hall
  obtain ⟨-, -, hrequest, -⟩ := (hall {} .write [.cgi, .fastcgi] fastcgiIo fastcgiThread 9 fastcgiThread_client).held
    .fastcgi ((fastcgiThread_holds .fastcgi).mpr rfl)
  exact absurd hrequest (by decide)

end handled

end Monkey.Plugins
