import Dap.Adapter.ClientState

/-! The connection and the presence queries of the dsh plugin's hub client
(`adapters/dsh-plugin/src/client.ts`). -/
namespace Dap

/-- What a `presence()` call is settled with. -/
abbrev PluginSettlement := Except String (List PresenceAgent)

/-- `presence()` awaits a query, and so does each round of the warm-up. -/
structure PluginClient where
  agentId : String
  name : Option String := none
  uuid : ℕ → String
  sockets : List ReadyState := []
  ws : Option ℕ := none
  welcomed : Bool := false
  stopped : Bool := false
  welcomes : ℕ := 0
  hellos : ℕ := 0
  drawn : ℕ := 0
  echoSeen : Bool := false
  presenceWaiters : JsMap String PresenceWaiter := ∅
  warmUps : List ℕ := []
  calls : List String := []
  settled : List (ℕ × PluginSettlement) := []
  sent : List (ℕ × ClientFrame) := []

inductive PluginEvent where
  | start
  | stop
  | retarget (agentId name : Option String)
  | retry
  | socket (i : ℕ) (e : SocketEvent)
  | presence
  | timeout (id : String) (w : PresenceWaiter)
  | warmUp (n : ℕ)

namespace PluginClient

def notConnected : String :=
  "not connected to the hub (reconnecting with backoff — retry in a moment)"

def noReply : String := "presence: hub did not reply"

/-! ### The connection -/

def connected (s : PluginClient) : Bool :=
  s.welcomed && s.ws.any fun i => s.sockets[i]? = some .opened

def connect (s : PluginClient) : PluginClient :=
  if s.stopped then s
  else { s with ws := some s.sockets.length, sockets := s.sockets ++ [.connecting] }

/-- `close` and `terminate`: the `close` event is still to come. -/
def closeSocket (s : PluginClient) (i : ℕ) : PluginClient :=
  if s.sockets[i]? = some .closed then s else { s with sockets := s.sockets.set i .closing }

def retire (s : PluginClient) : PluginClient := { s.ws.elim s s.closeSocket with ws := none }

def start (s : PluginClient) : PluginClient := { s with stopped := false }.connect

def stop (s : PluginClient) : PluginClient := { s with stopped := true }.retire

def retarget (s : PluginClient) (agentId name : Option String) : PluginClient :=
  { s.retire with
    welcomed := false
    stopped := false
    agentId := agentId.getD s.agentId
    name := name <|> s.name }.connect

/-- `this.ws?.send`. -/
def post (s : PluginClient) (f : ClientFrame) : PluginClient :=
  match s.ws with
  | some i => if s.sockets[i]? = some .opened then { s with sent := s.sent ++ [(i, f)] } else s
  | none => s

def sendHello (s : PluginClient) : PluginClient :=
  { s with hellos := s.hellos + 1 }.post (.hello s.agentId s.name)

def onDisconnect (s : PluginClient) : PluginClient := { s with welcomed := false }

/-! ### Presence queries -/

def isSettled (s : PluginClient) (r : ℕ) : Bool := s.settled.any fun e => e.1 = r

/-- A promise is settled once. -/
def settle (s : PluginClient) (o : PluginSettlement) (r : ℕ) : PluginClient :=
  if s.isSettled r then s else { s with settled := s.settled ++ [(r, o)] }

def queryPresence (s : PluginClient) (id : String) (w : PresenceWaiter) : PluginClient :=
  { s with presenceWaiters := s.presenceWaiters.set id w }.post (.presenceQuery id)

/-- A call that fails at once has an id too. -/
def presence (s : PluginClient) : PluginClient :=
  let r := s.calls.length
  let id := s.uuid s.drawn
  let s := { s with drawn := s.drawn + 1, calls := s.calls ++ [id] }
  if !s.connected then s.settle (.error notConnected) r else s.queryPresence id (.call r)

/-- `presence()` goes on with the frame that completed its query. -/
def roster (s : PluginClient) (agents : List PresenceEntry) : List PresenceAgent :=
  (agents.filter fun a => a.online = some true).map fun a =>
    { a with self := a.agentId = s.agentId }

/-- The loop of `warmUpEcho` from an attempt on. -/
def warmUpEcho (s : PluginClient) (attempt : ℕ) : PluginClient :=
  if attempt < 3 && !s.echoSeen && s.connected then
    { s with drawn := s.drawn + 1 }.queryPresence (s.uuid s.drawn) (.warmUp attempt)
  else s

/-- A query's promise is resolved with a frame. -/
def resolve (s : PluginClient) (agents : List PresenceEntry) : PresenceWaiter → PluginClient
  | .call r => s.settle (.ok (s.roster agents)) r
  | .warmUp attempt => { s with warmUps := s.warmUps ++ [attempt + 1] }

def resolvePresence (s : PluginClient) (replyTo : Option String) (agents : List PresenceEntry) :
    PluginClient :=
  match optStr replyTo with
  | some rid =>
    let s := { s with echoSeen := true }
    match s.presenceWaiters.get rid with
    | none => s
    | some w => { s with presenceWaiters := s.presenceWaiters.delete rid }.resolve agents w
  | none =>
    if s.echoSeen then s
    else
      { s.presenceWaiters.values.foldl (fun s w => s.resolve agents w) s with
        presenceWaiters := ∅ }

/-- The timer of a query fires. -/
def timeout (s : PluginClient) (id : String) (w : PresenceWaiter) : PluginClient :=
  let s := if s.presenceWaiters.get id = some w then
    { s with presenceWaiters := s.presenceWaiters.delete id } else s
  match w with
  | .call r => s.settle (.error noReply) r
  | .warmUp attempt => { s with warmUps := s.warmUps ++ [attempt + 1] }

def onWelcome (s : PluginClient) : PluginClient :=
  let s := { s with welcomed := true, welcomes := s.welcomes + 1 }
  (s.post .flush).warmUpEcho 0

/-! ### Events -/

def handleRaw (s : PluginClient) : HubFrame → PluginClient
  | .welcome => s.onWelcome
  | .presence replyTo agents => s.resolvePresence replyTo agents
  | _ => s

def handleSocket (s : PluginClient) : SocketEvent → PluginClient
  | .opened => s.sendHello
  | .message f => s.handleRaw f
  | .closed => s.onDisconnect
  | .error _ => s
  | .unexpectedResponse code => if code = 401 then s.ws.elim s s.closeSocket else s

def socketMoves (s : PluginClient) (i : ℕ) : SocketEvent → PluginClient
  | .opened => { s with sockets := s.sockets.set i .opened }
  | .closed => { s with sockets := s.sockets.set i .closed }
  | _ => s

/-- A socket that is not the current one is not listened to. -/
def step (s : PluginClient) : PluginEvent → PluginClient
  | .start => s.start
  | .stop => s.stop
  | .retarget agentId name => s.retarget agentId name
  | .retry => s.connect
  | .socket i e =>
    let s := s.socketMoves i e
    if s.ws = some i then s.handleSocket e else s
  | .presence => s.presence
  | .timeout id w => s.timeout id w
  | .warmUp n =>
    match s.warmUps[n]? with
    | none => s
    | some attempt => { s with warmUps := s.warmUps.eraseIdx n }.warmUpEcho attempt

def run (s : PluginClient) (es : List PluginEvent) : PluginClient := es.foldl step s

end PluginClient

end Dap
