import Dap.Hub.Enroll

/-! Dispatching frames, and a connection's read loop (`hub/relay.go`). -/
namespace Dap

variable (P : Platform)

/-- Traces one dispatched frame and how routing ended. -/
def logOp (c : ConnID) (op id : String) (code : Conn → String) : HubProc Unit :=
  logf "op" fun h =>
    let k := h.conns c
    [("agent", k.logAgent), ("op", dash op), ("id", dash id),
      ("outcome", if code k = "" then "ok" else "err"), ("code", dash (code k))]

/-- The table of handlers. -/
def handler (c : ConnID) (op : String) (f : Frame) (raw : Raw) : Option (HubProc Unit) :=
  if op = "hello" then some (handleHello P c f raw)
  else if op = "whois" then some (handleWhois c f)
  else if op = "presence_query" then some (handlePresenceQuery c f)
  else if op = "join" then some (handleJoin P c f)
  else if op = "send" then some (handleSend P c f raw)
  else if op = "flush" then some (handleFlush c)
  else if op = "enroll" then some (handleEnroll P c)
  else if op = "enroll_create" then some (handleEnrollCreate P c)
  else none

/-- Routes a parsed frame to its handler. -/
def dispatchFrame (c : ConnID) (f : Frame) (raw : Raw) : HubProc Unit := do
  let op := frameOp f raw
  let k ← ownConn c
  if ¬ k.authed ∧ op ≠ "hello" then
    sendErr c codeNotAuth "send hello first"
    logOp c op f.id fun _ => codeNotAuth
  else
    touchLastSeen k.agentID
    match handler P c op f raw with
    | some handle =>
      handle
      logOp c op f.id Conn.errCode
    | none =>
      sendErr c codeBadFrame ("unknown op " ++ op)
      logOp c op f.id fun _ => codeBadFrame

def dispatch (c : ConnID) (data : Bytes) : HubProc Unit := do
  setOwn c fun k => { k with errCode := "" }
  match parseFrame data with
  | none =>
    sendErr c codeBadFrame (P.jsonError data)
    logOp c "" "" fun _ => codeBadFrame
  | some (f, raw) => dispatchFrame P c f raw

/-- A WebSocket message. -/
inductive Message where
  | text (data : Bytes)
  | binary (data : Bytes)

/-- Reads, parses and dispatches messages until they end, the connection is dropped, or one is too
large. -/
def readLoop (c : ConnID) : List Message → HubProc Unit
  | [] => return
  | m :: rest => do
    let closed ← Proc.read (.receive c) fun h => (h.conns c).closed
    if closed then return
    else match m with
      | .binary _ =>
        sendErr c codeBadFrame "text frames only"
        readLoop c rest
      | .text data =>
        if data.length > maxFrameBytes then reject c codeBadFrame "frame too large"
        else
          dispatch P c data
          readLoop c rest

def CloseReason.name : CloseReason → String
  | .unknown => "error"
  | .eof => "eof"
  | .error => "error"
  | .evicted => "evicted"
  | .writeFail => "write_fail"
  | .pingTimeout => "ping_timeout"
  | .backpressure => "backpressure"

/-- The life of an upgraded connection on which the given messages arrive. -/
def serve (c : ConnID) (remote : String) (messages : List Message) : HubProc Unit := do
  logf "ws_open" fun _ => [("remote", remote)]
  readLoop P c messages
  deregister c
  logf "ws_close" fun h => [("agent", (h.conns c).logAgent), ("reason", (h.conns c).reason.name)]

end Dap
