import Dap.Hub.Dispatch

/-! The HTTP side of the hub: its routes, bearer credentials, the upgrade and the admin API
(`hub/main.go`, `hub/enroll.go`, `hub/admin.go`, `hub/relay.go`). -/
namespace Dap
open GoJson

/-- A request as the mux has it: the segments of the cleaned path, each unescaped, the parsed query,
and the `Authorization` header or nothing. `refusal` is the status with which `websocket.Accept`
turns it down. -/
structure HttpRequest where
  method : String
  path : String
  segments : List String
  query : List (String × String) := []
  authorization : String := ""
  remote : String := ""
  body : Bytes := []
  refusal : Option ℕ := none

inductive HttpBody where
  | empty
  | text (s : String)
  | json (v : Json String)

structure HttpResponse where
  status : ℕ
  body : HttpBody := .empty

def unauthorized : HttpResponse := ⟨401, .text "unauthorized"⟩

inductive Endpoint where
  | healthz | ws | channels | agents
  | acl (name : String)
  | evict (agentID : String)
  deriving DecidableEq

/-- The table of routes. A pattern for `GET` takes `HEAD` too, and a wildcard takes no empty
segment. -/
def buildMux (r : HttpRequest) : Except HttpResponse Endpoint :=
  let only (methods : List String) (e : Endpoint) : Except HttpResponse Endpoint :=
    if r.method ∈ methods then .ok e else .error ⟨405, .text "Method Not Allowed"⟩
  match r.segments with
  | ["healthz"] => .ok .healthz
  | ["ws"] => .ok .ws
  | ["api", "channels"] => only ["GET", "HEAD"] .channels
  | ["api", "agents"] => only ["GET", "HEAD"] .agents
  | ["api", "channels", name, "acl"] =>
    if name = "" then .error ⟨404, .text "404 page not found"⟩ else only ["PUT"] (.acl name)
  | ["api", "agents", agentID] =>
    if agentID = "" then .error ⟨404, .text "404 page not found"⟩
    else only ["DELETE"] (.evict agentID)
  | _ => .error ⟨404, .text "404 page not found"⟩

/-! ### Credentials -/

def bearer : List Char := "Bearer ".toList

/-- The credential in the `Authorization` header, nothing when there is none. -/
def bearerToken (r : HttpRequest) : String :=
  let text := r.authorization.toList
  String.ofList (if bearer.isPrefixOf text then text.drop bearer.length else text)

/-- The header first, then `?token=`. -/
def wsCredential (r : HttpRequest) : String :=
  if bearerToken r ≠ "" then bearerToken r else (r.query.lookup "token").getD ""

variable (P : Platform)

/-- Authenticates the upgrade. -/
def wsAuth (r : HttpRequest) : HubProc (Option (AuthKind × String)) := do
  match ← Proc.read .mu fun h => h.matchBearer P (wsCredential r) with
  | some granted => return some granted
  | none =>
    logf "ws" fun _ => [("remote", r.remote), ("result", "denied")]
    return none

/-- The upgrade of the request to the connection `c`; what follows it is `serve`. -/
def handleWS (c : ConnID) (r : HttpRequest) : HubProc HttpResponse := do
  match ← wsAuth P r with
  | none => return unauthorized
  | some (kind, bound) =>
    match r.refusal with
    | some status => return ⟨status, .empty⟩
    | none =>
      Proc.guarded (.own c) fun _ h =>
        if (h.conns c).stage = .absent then some ((), h.openConn c kind bound) else none
      return ⟨101, .empty⟩

/-! ### The admin API -/

def adminOK (r : HttpRequest) : HubProc Bool := do
  let ok ← Proc.read .config fun h => h.adminOK P (bearerToken r)
  if ok then return true
  else
    logf "admin" fun _ =>
      [("method", r.method), ("path", r.path), ("remote", r.remote), ("result", "denied")]
    return false

structure ChannelSummary where
  name : String
  members : ℕ
  aclSize : ℕ

def ChannelSummary.json (s : ChannelSummary) : Json String :=
  .obj [("name", .str s.name), ("members", .num (toString s.members)),
    ("aclSize", .num (toString s.aclSize))]

def Hub.channelRows (h : Hub) : List ChannelSummary :=
  h.channels.toList.map fun kv => ⟨kv.1, kv.2.members.size, kv.2.allowed.length⟩

def writeJSON (v : Json String) : HttpResponse := ⟨200, .json v⟩

/-- Lists channels with member and ACL sizes. -/
def adminChannels (r : HttpRequest) : HubProc HttpResponse := do
  if ¬ (← adminOK P r) then return unauthorized
  else
    let rows ← Proc.read .mu Hub.channelRows
    logf "admin" fun _ => [("method", r.method), ("path", r.path), ("result", "ok"),
      ("channels", toString rows.length)]
    return writeJSON (.arr (rows.map ChannelSummary.json))

/-- The first value of the body; what comes after it is not read. -/
def firstValue (body : Bytes) : Option (Json String) :=
  let text := Bytes.runes 0 body
  (Json.readValue (text.length + 1) Json.maxNestingDepth text).map Prod.fst

def decodeACL (body : Bytes) : Option (List String) :=
  ((firstValue body).bind (decodeStruct (fun (s : Slice String) member =>
    match matchField ["allowed"] member.1 with
    | some _ => s.decode decodeString "" member.2
    | none => some s) {})).map Slice.elems

/-- Replaces a channel's ACL, creating the channel if need be. -/
def adminSetACL (name : String) (r : HttpRequest) : HubProc HttpResponse := do
  if ¬ (← adminOK P r) then return unauthorized
  else match decodeACL r.body with
    | none =>
      logf "admin" fun _ => [("method", r.method), ("path", r.path), ("result", "bad_request")]
      return ⟨400, .text (P.jsonError r.body)⟩
    | some allowed =>
      Proc.modify .mu (Hub.setACLLocked name allowed)
      logf "admin" fun _ => [("method", r.method), ("path", r.path), ("result", "ok"),
        ("channel", name), ("acl", toString allowed.length)]
      return ⟨204, .empty⟩

/-- Lists agent presence. -/
def adminAgents (r : HttpRequest) : HubProc HttpResponse := do
  if ¬ (← adminOK P r) then return unauthorized
  else
    let agents ← presenceList
    logf "admin" fun _ => [("method", r.method), ("path", r.path), ("result", "ok"),
      ("agents", toString agents.length)]
    return writeJSON (.arr (agents.map fun a => .obj a.members))

/-- The request as `adminEvict` takes it. -/
def HttpRequest.evict (r : HttpRequest) (agentID : String) : EvictRequest :=
  ⟨bearerToken r, agentID, r.path, r.remote⟩

def evictBody (status : ℕ) : HttpBody :=
  if status = 401 then .text "unauthorized"
  else if status = 404 then .text "no such agent"
  else if status = 409 then .text "agent is online"
  else .empty

/-- Serves one request; an upgrade leaves the connection `c` behind. -/
def handleHTTP (c : ConnID) (r : HttpRequest) : HubProc HttpResponse :=
  match buildMux r with
  | .error response => return response
  | .ok .healthz => return ⟨200, .text "ok"⟩
  | .ok .ws => handleWS P c r
  | .ok .channels => adminChannels P r
  | .ok .agents => adminAgents P r
  | .ok (.acl name) => adminSetACL P name r
  | .ok (.evict agentID) => do
    let status ← adminEvict P (r.evict agentID)
    return ⟨status, evictBody status⟩

end Dap
