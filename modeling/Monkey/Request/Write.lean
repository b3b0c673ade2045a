import Monkey.Http.Init

/-!
# Monkey.Request.Write

`mk_handler_write`: one write event walks the request list from its head, starts
the requests not yet processed, continues the files not yet sent, and runs
STAGE_40 after every node it gets past.

A file may be sent in parts; the event for the next part begins at the head of the list like
any other.  Headers and pages go out at once, and what the socket takes of a file is said by
`Sys`.
-/

namespace Monkey

/-- What a write event does with one node: `bytes_to_send` alone tells a request
to continue (`> 0`), one to start (`< 0`) and one to skip. -/
def mkHandlerWriteNode (ctx : Ctx) (finalStatus : Int) (sr : SessionRequest) : Res :=
  if sr.handledBy = false ∧ sr.bytesToSend > 0 then mkHttpSendFile ctx sr
  else if sr.handledBy = false ∧ sr.bytesToSend < 0 then (mkRequestProcess ctx sr).after [.process]
  else ⟨finalStatus, sr, []⟩

/-- The result of a walk: return value, the nodes walked or left, and the output
of each node by position. -/
structure Walk where
  ret : Int
  list : List SessionRequest
  out : List (Nat × Out)

/-- A walk after one more node in front. -/
def Walk.cons (node : Nat) (sr : SessionRequest) (out : List Out) (w : Walk) : Walk :=
  ⟨w.ret, sr :: w.list, out.map (node, ·) ++ w.out⟩

/-- The loop of `mk_handler_write` over the nodes from position `node` on;
`finalStatus` carries over a skipped node. -/
def mkHandlerWriteLoop (cfg : Config) (sys : Sys) (cs : ClientSession) :
    Nat → Int → List SessionRequest → Walk
  | _, _, [] => ⟨0, [], []⟩
  | node, finalStatus, sr :: rest =>
      let r := mkHandlerWriteNode ⟨cfg, sys, cs, rest, node⟩ finalStatus sr
      if r.ret > 0 then Walk.cons node r.sr r.out ⟨r.ret, rest, []⟩
      else
        let out := r.out ++ [.stage40]
        if (r.ret = exitNormal ∨ r.ret = exitError) ∧ r.sr.closeNow = true then
          Walk.cons node r.sr out ⟨-1, rest, []⟩
        else if r.ret = exitAbort then Walk.cons node r.sr out ⟨-1, rest, []⟩
        else Walk.cons node r.sr out (mkHandlerWriteLoop cfg sys cs (node + 1) r.ret rest)

/-- `mk_handler_write` on a parsed request list.  A write event begins at the head of the list
again, whatever was served before; what keeps a request from being served twice is its
`bytes_to_send` only. -/
def mkHandlerWriteList (cfg : Config) (sys : Sys) (cs : ClientSession)
    (list : List SessionRequest) : Walk :=
  mkHandlerWriteLoop cfg sys cs 0 0 list

end Monkey
