import Monkey.Cgi.Output
import Monkey.Fastcgi.Handlers
import Monkey.Lib.Chain
import Monkey.Palm.Relay

/-!
# Monkey.Plugins.Hooks

The hooks of the plugins that answer a client themselves (`cgi`, `palm`, `fastcgi`) on the
state of one worker thread, and how the core asks them about an event
(`mk_plugin_event_write`, `mk_plugin_event_error`, `mk_plugin_event_close`).

A descriptor a plugin has registered goes to that plugin at once; for any other one the
plugins are asked in order.  What the core does inside `http_request_end` is not followed.
-/

namespace Monkey.Plugins

/-! ## the thread -/

/-- A plugin of `config->plugins`; `other` is one without hooks for events. -/
inductive Plugin
  | cgi | palm | fastcgi | other
deriving DecidableEq, Repr

/-- `struct cgi_request` in the list of the thread. -/
structure CgiNode where
  fd : Int
  socket : Int
  relay : Cgi.Relay

/-- `struct mk_palm_request` in the list of the thread. -/
structure PalmNode where
  clientFd : Int
  palmFd : Int
  relay : Palm.Relay

/-- `struct plugin_event`. -/
structure PluginEvent where
  socket : Int
  handler : Plugin
deriving DecidableEq, Repr

/-- What the plugins and the core hold for a worker thread.  A request in
`requests_by_socket` is named by the pipe it reads. -/
structure Thread where
  cgi : List CgiNode := []
  requestsBySocket : Int → Option Int := fun _ => none
  palm : List PalmNode := []
  fcgi : Fastcgi.FcgiContext
  events : List PluginEvent := []

/-- `mk_plugin_event_get`. -/
def mkPluginEventGet (t : Thread) (socket : Int) : Option Plugin :=
  (t.events.find? (·.socket == socket)).map (·.handler)

/-- `mk_plugin_event_add`. -/
def mkPluginEventAdd (events : List PluginEvent) (socket : Int) (handler : Plugin) : List PluginEvent :=
  events ++ [⟨socket, handler⟩]

/-- `mk_plugin_event_del`. -/
def mkPluginEventDel (events : List PluginEvent) (socket : Int) : List PluginEvent :=
  if socket ≤ 0 then events else events.eraseP (·.socket == socket)

/-! ## hooks -/

/-- What the system does in an event: the memory behind a buffer of `cgi`, what a client of
`palm` takes, and the answers to `fastcgi`. -/
structure HookIo where
  ctx : Ctx
  beyond : Bytes := []
  takes : List Palm.Take := []
  fcgi : Fastcgi.WriteIo
  connect : Option Int := none

/-- What a hook does outside the thread. -/
inductive Effect
  | fcgi (e : Fastcgi.Effect)
  | sent (socket : Int) (sent : List Sent)
  | requestEnd (socket : Int)
  | socketClose (fd : Int)

structure Outcome where
  ret : EventRet
  thread : Thread
  effects : List Effect := []

/-- What a hook makes of an event: the client whose request it found, and what it returns;
there is no outcome where the process does not go on. -/
structure Answer where
  request : Option Int
  outcome : Option Outcome

def Hook : Type := HookIo → Thread → Int → Answer

/-- A hook that finds no request. -/
def Answer.stranger (ret : EventRet) (t : Thread) : Answer := ⟨none, some ⟨ret, t, []⟩⟩

/-! ## cgi -/

/-- `cgi_req_get_by_fd`. -/
def cgiReqGetByFd (t : Thread) (fd : Int) : Option CgiNode := t.cgi.find? (·.fd == fd)

/-- `cgi_req_get`. -/
def cgiReqGet (t : Thread) (socket : Int) : Option CgiNode :=
  (t.requestsBySocket socket).bind (cgiReqGetByFd t)

/-- `_mkp_event_write` of `cgi`. -/
def cgiEventWrite : Hook := fun io t socket =>
  match cgiReqGet t socket with
  | none => .stranger .continue t
  | some r =>
      let x := r.relay.eventWrite io.ctx io.beyond
      let cgi := t.cgi.replaceF fun n => if n.fd == r.fd then some { n with relay := x } else none
      let sent := Effect.sent socket (x.sent.drop r.relay.sent.length)
      ⟨some socket, if x.aborted then none else some ⟨.owned, { t with cgi := cgi }, [sent]⟩⟩

/-- `hangup` of `cgi`, which looks for a pipe only. -/
def cgiHangup : Hook := fun io t socket =>
  match cgiReqGetByFd t socket with
  | none => .stranger .continue t
  | some r =>
      let outcome := (cgiEventWrite io t r.socket).outcome.map fun o =>
        let last := if r.relay.r.chunked then [Effect.sent r.socket [.bytes lastChunk]] else []
        { o with
          ret := .owned
          thread := { o.thread with
            cgi := o.thread.cgi.eraseP (·.fd == r.fd)
            requestsBySocket := Function.update o.thread.requestsBySocket r.socket none
            events := mkPluginEventDel o.thread.events r.fd }
          effects := o.effects ++ last ++ [.requestEnd r.socket, .socketClose r.fd] }
      ⟨some r.socket, outcome⟩

/-! ## palm -/

/-- `mk_palm_request_get`. -/
def mkPalmRequestGet (t : Thread) (palmFd : Int) : Option PalmNode := t.palm.find? (·.palmFd == palmFd)

/-- `mk_palm_request_get_by_http`. -/
def mkPalmRequestGetByHttp (t : Thread) (socket : Int) : Option PalmNode := t.palm.find? (·.clientFd == socket)

/-- `mk_palm_request_delete`. -/
def mkPalmRequestDelete (palm : List PalmNode) (palmFd : Int) : List PalmNode :=
  palm.eraseP (·.palmFd == palmFd)

/-- `_mkp_event_write` of `palm`. -/
def palmEventWrite : Hook := fun io t socket =>
  match mkPalmRequestGetByHttp t socket with
  | none => .stranger .continue t
  | some pr =>
      let x := Palm.Relay.eventWrite { pr.relay with takes := io.takes }
      let palm := t.palm.replaceF fun n => if n.clientFd == socket then some { n with relay := x } else none
      let sent := Effect.sent socket (x.sent.drop pr.relay.sent.length)
      ⟨some pr.clientFd, some ⟨.owned, { t with palm := palm }, [sent]⟩⟩

/-- `hangup` of `palm`.  For a client the Palm server's descriptor is closed, and stays
registered. -/
def palmHangup : Hook := fun _ t socket =>
  match mkPalmRequestGet t socket with
  | some pr =>
      let events := mkPluginEventDel t.events pr.palmFd
      ⟨some pr.clientFd, some ⟨.continue, { t with palm := mkPalmRequestDelete t.palm socket, events := events },
        [.requestEnd pr.clientFd, .socketClose socket]⟩⟩
  | none =>
      match mkPalmRequestGetByHttp t socket with
      | none => .stranger .continue t
      | some pr =>
          ⟨some pr.clientFd, some ⟨.continue, { t with palm := mkPalmRequestDelete t.palm pr.palmFd },
            [.socketClose pr.palmFd]⟩⟩

/-! ## fastcgi -/

/-- The client whose request the hooks of `fastcgi` find; a connection of a backend comes
first. -/
def fcgiClient (ctx : Fastcgi.FcgiContext) (socket : Int) : Option Int :=
  match Fastcgi.fcgiFdListGetByFd ctx.fds socket with
  | some _ => none
  | none => (Fastcgi.requestListGetByFd ctx.rl socket).2.map fun _ => socket

/-- The events that are registered after an effect. -/
def fcgiEvents (events : List PluginEvent) : Fastcgi.Effect → List PluginEvent
  | .eventAdd _ fd => mkPluginEventAdd events fd .fastcgi
  | .eventDel _ fd => mkPluginEventDel events fd
  | _ => events

def fcgiOutcome (t : Thread) (h : Fastcgi.HookRet) : Outcome where
  ret := h.ret
  thread := { t with fcgi := h.ctx, events := h.effects.foldl fcgiEvents t.events }
  effects := h.effects.map .fcgi

/-- `_mkp_event_write` of `fastcgi`. -/
def fcgiEventWrite (config : Fastcgi.FcgiConfig) : Hook := fun io t socket =>
  ⟨fcgiClient t.fcgi socket, (Fastcgi.eventWrite config t.fcgi socket io.fcgi).map (fcgiOutcome t)⟩

/-- `hangup` of `fastcgi`. -/
def fcgiHangup (config : Fastcgi.FcgiConfig) : Hook := fun io t socket =>
  ⟨fcgiClient t.fcgi socket, some (fcgiOutcome t (Fastcgi.hangup config t.fcgi socket io.connect))⟩

/-! ## the core -/

section config

variable (config : Fastcgi.FcgiConfig)

/-- `event_write` of a plugin. -/
def Plugin.eventWrite : Plugin → Option Hook
  | .cgi => some cgiEventWrite
  | .palm => some palmEventWrite
  | .fastcgi => some (fcgiEventWrite config)
  | .other => none

/-- `event_error` of a plugin. -/
def Plugin.eventError : Plugin → Option Hook
  | .cgi => some cgiHangup
  | .palm => some palmHangup
  | .fastcgi => some (fcgiHangup config)
  | .other => none

/-- `event_close` of a plugin. -/
def Plugin.eventClose : Plugin → Option Hook
  | .cgi => some cgiHangup
  | .palm => some palmHangup
  | .fastcgi => some (fcgiHangup config)
  | .other => none

/-- What the core gets: the plugin with the client whose request it found, and what came
of it.  The return value `none` is `MK_PLUGIN_RET_CONTINUE`. -/
structure Reply where
  request : Option (Plugin × Int)
  outcome : Option (Option EventRet × Thread × List Effect)

def Answer.reply (a : Answer) (p : Plugin) : Reply where
  request := a.request.map (p, ·)
  outcome := a.outcome.map fun o => (some o.ret, o.thread, o.effects)

/-- A plugin is asked, if it has the hook; one that passes has done nothing outside. -/
def askPlugin (hook : Plugin → Option Hook) (io : HookIo) (socket : Int) (p : Plugin) (t : Thread) :
    Asked Thread Answer :=
  match hook p with
  | none => .passed t
  | some h =>
      match h io t socket with
      | ⟨_, some ⟨.next, t, _⟩⟩ => .passed t
      | a => .answered a

/-- The loop over `config->plugins`. -/
def askPlugins (hook : Plugin → Option Hook) (plugins : List Plugin) (io : HookIo) (t : Thread) (socket : Int) :
    Reply :=
  match askAll (askPlugin hook io socket) plugins t with
  | .passed t => ⟨none, some (none, t, [])⟩
  | .answered (p, a) => a.reply p

/-- The three functions, for the hook of one kind. -/
def mkPluginEvent (hook : Plugin → Option Hook) (plugins : List Plugin) (io : HookIo) (t : Thread)
    (socket : Int) : Reply :=
  match (mkPluginEventGet t socket).bind fun p => (hook p).map (p, ·) with
  | some (p, h) => (h io t socket).reply p
  | none => askPlugins hook plugins io t socket

/-- `mk_plugin_event_write`. -/
def mkPluginEventWrite := mkPluginEvent (Plugin.eventWrite config)

/-- `mk_plugin_event_error`. -/
def mkPluginEventError := mkPluginEvent (Plugin.eventError config)

/-- `mk_plugin_event_close`. -/
def mkPluginEventClose := mkPluginEvent (Plugin.eventClose config)

end config

end Monkey.Plugins
