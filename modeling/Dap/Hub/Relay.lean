import Dap.Hub.Auth

/-! Queueing frames, the connection registry and presence broadcasts (`hub/relay.go`,
`hub/presence.go`). Each definition ending in `Locked` is one critical section of `h.mu`. -/
namespace Dap

/-! ### Sending -/

/-- The final `select`: a push when there is room, or the closed case. -/
def trySend (c : ConnID) (r : Reply) (pick : Bool) (h : Hub) : Option (Bool × Hub) :=
  let k := h.conns c
  if k.send.length < sendBuffer ∧ (k.closed = false ∨ pick = true) then
    some (true, h.updConn c fun k => { k with send := k.send ++ [r] })
  else if k.closed then some (false, h)
  else none

def release (c : ConnID) (r : Reply) : HubProc Unit :=
  Proc.modify (.release c r) fun h => h.updConn c fun k => { k with queued := k.queued - r.length }

/-- Queues a frame for the write pump; `false` if dropped. -/
def sendFrame (c : ConnID) (r : Reply) : HubProc Bool := do
  let queued ← Proc.read (.load c r) fun h => (h.conns c).queued
  if queued + r.length > maxQueuedBytes then
    logf "backpressure" fun h =>
      [("agent", (h.conns c).logAgent), ("queued", toString (h.conns c).queued)]
    closedAs c .backpressure
    drop c
    return false
  else
    Proc.modify (.reserve c r) fun h =>
      h.updConn c fun k => { k with queued := k.queued + r.length }
    let closed ← Proc.read (.checkClosed c) fun h => (h.conns c).closed
    if closed then
      release c r
      return false
    else
      let pushed ← Proc.guarded (.select c r) (trySend c r)
      if pushed then return true
      else
        release c r
        return false

def errorFrame (code msg : String) : Frame := { op := "error", code := code, msg := msg }

def sendErr (c : ConnID) (code msg : String) : HubProc Unit := do
  setOwn c fun k => { k with errCode := code }
  logf "err" fun h => [("agent", (h.conns c).logAgent), ("code", code), ("msg", msg)]
  let _ ← sendFrame c (.frame (errorFrame code msg))

/-- Answers a failed hello through the write pump, which then drops the connection. -/
def reject (c : ConnID) (code msg : String) : HubProc Unit := do
  setOwn c fun k => { k with errCode := code }
  logf "auth_fail" fun h => [("agent", (h.conns c).logAgent), ("code", code), ("msg", msg)]
  let pushed ← Proc.guarded (.reject c (.frame (errorFrame code msg))) fun pick h =>
    let k := h.conns c
    if k.rejectCh = none ∧ (k.closed = false ∨ pick = true) then
      some (true, h.updConn c fun k =>
        { k with rejectCh := some (.frame (errorFrame code msg)) })
    else if k.closed then some (false, h)
    else none
  if pushed then
    Proc.guarded (.awaitClosed c) fun _ h => if (h.conns c).closed then some ((), h) else none

/-! ### Registry -/

/-- A pointer to an entry of the registry: whose it is, and how many entries of that agent had been
taken out before. -/
structure EntryPtr where
  agentID : String
  evictions : ℕ

namespace Hub

def isMember (ch : Channel) (agentID : String) : Bool := ch.members[agentID]?.getD false

/-- Connected members sharing any channel with `agentID`, the agent itself excluded. -/
def presencePeersLocked (h : Hub) (agentID : String) : List ConnID :=
  (h.channels.toList.flatMap fun (_, ch) =>
    if isMember ch agentID then
      ch.members.keys.filterMap fun memberID =>
        if memberID ≠ agentID then h.clients[memberID]? else none
    else []).dedup

/-- What the pointer leads to by now. No code changes an entry that has been taken out. -/
def deref (h : Hub) (p : EntryPtr) : AgentEntry :=
  (h.evicted[p.agentID]?.getD [])[p.evictions]?.getD (h.agents[p.agentID]?.getD {})

/-- The pointer to the agent's entry. -/
def pointTo (h : Hub) (agentID : String) : EntryPtr :=
  ⟨agentID, (h.evicted[agentID]?.getD []).length⟩

def freshEntry (h : Hub) (c : ConnID) : AgentEntry where
  pubkey := (h.conns c).pubkey
  x25519 := (h.conns c).x25519
  name := (h.conns c).name
  online := true
  lastSeen := h.nowMS

def upsertAgentLocked (h : Hub) (c : ConnID) : Hub :=
  { h with agents := h.agents.insert (h.conns c).agentID (h.freshEntry c) }

/-- Evicts the connection that holds the agent, if it is another one. -/
def evictOther (h : Hub) (c : ConnID) : Hub :=
  let id := (h.conns c).agentID
  match h.clients[id]? with
  | some old =>
    if old ≠ c then ((h.closedAs old .evicted).dropped old).logged "evict" [("agent", id)] else h
  | none => h

/-- Installs an authenticated connection; returns its entry and the peers to be told. -/
def registerLocked (c : ConnID) (h : Hub) : (EntryPtr × List ConnID) × Hub :=
  let id := (h.conns c).agentID
  let h := h.evictOther c
  let h := { h with clients := h.clients.insert id c }
  let h := h.upsertAgentLocked c
  let h := h.updConn c fun k => { k with stage := .serving }
  ((h.pointTo id, h.presencePeersLocked id), h)

/-- Removes a dead connection unless a newer one replaced it. `none` is the nil dereference of a
missing registry entry. -/
def deregisterLocked (c : ConnID) (h : Hub) : Option (Option (EntryPtr × List ConnID) × Hub) :=
  let id := (h.conns c).agentID
  let h := h.updConn c fun k => { k with stage := .gone }
  if h.clients[id]? ≠ some c then some (none, h)
  else match h.agents[id]? with
    | none => none
    | some e =>
      let e := { e with online := false, lastSeen := h.nowMS }
      let h := { h with clients := h.clients.erase id, agents := h.agents.insert id e }
      some (some (h.pointTo id, h.presencePeersLocked id), h)

def touchLastSeenLocked (agentID : String) (h : Hub) : Hub :=
  match h.agents[agentID]? with
  | some e => { h with agents := h.agents.insert agentID { e with lastSeen := h.nowMS } }
  | none => h

end Hub

def touchLastSeen (agentID : String) : HubProc Unit :=
  Proc.modify .mu (Hub.touchLastSeenLocked agentID)

def lookupAgent (agentID : String) : HubProc (Option AgentEntry) :=
  Proc.read .mu fun h => h.agents[agentID]?

/-! ### Presence -/

def presenceInfo (agentID : String) (e : AgentEntry) : AgentInfo where
  agentID := agentID
  pubkey := e.pubkey
  x25519 := e.x25519
  name := e.name
  online := e.online
  lastSeen := e.lastSeen

def presenceBroadcast (agentID : String) (e : AgentEntry) : Frame :=
  { op := "presence", agents := [presenceInfo agentID e] }

/-- Announces one agent's state change to the given peers. -/
def sendPresence (peers : List ConnID) (agentID : String) (e : AgentEntry) : HubProc Unit := do
  if peers.isEmpty then return
  else
    let now ← Proc.read .clock Hub.nowMS
    peers.forM fun p => do
      let _ ← sendFrame p (.frame (presenceBroadcast agentID { e with lastSeen := now }))

/-- The name and the keys of an entry. `h.mu` is released, and each is read on its own. -/
def readEntry (p : EntryPtr) : HubProc AgentEntry := do
  let name ← Proc.read .entry fun h => (h.deref p).name
  let x25519 ← Proc.read .entry fun h => (h.deref p).x25519
  let pubkey ← Proc.read .entry fun h => (h.deref p).pubkey
  return { name, x25519, pubkey }

def register (c : ConnID) : HubProc Unit := do
  let (p, peers) ← Proc.atomically .mu (Hub.registerLocked c)
  let id ← Proc.read (.own c) fun h => (h.conns c).agentID
  let e ← readEntry p
  sendPresence peers id { e with online := true }

def deregister (c : ConnID) : HubProc Unit := do
  drop c
  let left ← Proc.guarded .mu fun _ h => h.deregisterLocked c
  match left with
  | none => return
  | some (p, peers) =>
    let id ← Proc.read (.own c) fun h => (h.conns c).agentID
    let e ← readEntry p
    sendPresence peers id { e with online := false }

/-- Every known agent with its online state. -/
def Hub.presenceList (h : Hub) : List AgentInfo :=
  h.agents.toList.map fun (id, e) => presenceInfo id e

def presenceList : HubProc (List AgentInfo) := Proc.read .mu Hub.presenceList

def agentInfoFrame (agentID : String) (e : AgentEntry) : Frame where
  op := "agent_info"
  agentID := agentID
  pubkey := e.pubkey
  x25519 := e.x25519
  name := e.name
  online := some e.online
  lastSeen := e.lastSeen

def handleWhois (c : ConnID) (f : Frame) : HubProc Unit := do
  match ← lookupAgent f.agentID with
  | none => sendErr c codeUnknownAgent ("no such agent: " ++ f.agentID)
  | some e =>
    let _ ← sendFrame c (.frame (agentInfoFrame f.agentID e))

def presenceAnswer (replyTo : String) (agents : List AgentInfo) : Frame :=
  { op := "presence", replyTo := replyTo, agents := agents }

/-- The answer echoes the id of the query. -/
def handlePresenceQuery (c : ConnID) (f : Frame) : HubProc Unit := do
  let list ← presenceList
  let _ ← sendFrame c (.frame (presenceAnswer f.id list))

end Dap
