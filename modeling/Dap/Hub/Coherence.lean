import Dap.Hub.Dispatch

/-! The hub as a transition system: one step is one critical section of some goroutine. The
invariant ties the connection map to the registry. -/
namespace Dap

/-- What a connection is and whom it speaks for, as opposed to its queue and its trace fields. -/
structure Identity where
  stage : Stage
  authed : Bool
  agentID : String
  pubkey : String
  x25519 : String
  name : String
  auth : AuthKind
  boundName : String
  deriving DecidableEq

def Conn.identity (k : Conn) : Identity :=
  ⟨k.stage, k.authed, k.agentID, k.pubkey, k.x25519, k.name, k.auth, k.boundName⟩

/-- All but the nonce cache, the log, the clock and the connections. -/
structure SameStore (h h' : Hub) : Prop where
  agents : h'.agents = h.agents
  evicted : h'.evicted = h.evicted
  clients : h'.clients = h.clients
  channels : h'.channels = h.channels
  mailbox : h'.mailbox = h.mailbox
  mailboxDropped : h'.mailboxDropped = h.mailboxDropped
  sendIDs : h'.sendIDs = h.sendIDs
  secrets : h'.secrets = h.secrets
  channelsFile : h'.channelsFile = h.channelsFile
  secretsFile : h'.secretsFile = h.secretsFile

/-- Queueing, logging, the clock, the nonce cache, and connections that die. -/
structure Quiet (h h' : Hub) : Prop extends SameStore h h' where
  identity : ∀ d, (h'.conns d).identity = (h.conns d).identity
  closed : ∀ d, (h.conns d).closed = true → (h'.conns d).closed = true

/-- One critical section, run by the goroutine of a connection or by anyone else. -/
inductive Step (P : Platform) : Option ConnID → Hub → Hub → Prop where
  | quiet {who h h'} (hq : Quiet h h') : Step P who h h'
  | opened {h} (c auth boundName) (hs : (h.conns c).stage = .absent) :
      Step P (some c) h (h.openConn c auth boundName)
  | greeted {h} (c) (f : Frame) (raw) (hs : (h.conns c).stage = .reading)
      (hv : verifySignature P f raw f.pubkey = none)
      (hn : (h.conns c).auth = .agent → f.name = (h.conns c).boundName) :
      Step P (some c) h (h.updConn c fun k => k.authenticated P f)
  | registered {h} (c) (hs : (h.conns c).stage = .greeted) :
      Step P (some c) h (h.registerLocked c).2
  | touched {h} (c) (hs : (h.conns c).stage = .reading ∨ (h.conns c).stage = .serving) :
      Step P (some c) h (h.touchLastSeenLocked (h.conns c).agentID)
  | joined {h} (c name chanPub) (hs : (h.conns c).stage = .serving) :
      Step P (some c) h (h.joinLocked P c name chanPub).2
  | enqueued {h} (c agentID f) (hs : (h.conns c).stage = .serving) :
      Step P (some c) h (h.enqueueLocked agentID f).2
  | drained {h} (c) (hs : (h.conns c).stage = .serving) :
      Step P (some c) h (h.drainLocked (h.conns c).agentID).2
  | latched {h} (c key) (hs : (h.conns c).stage = .serving) :
      Step P (some c) h (h.addSendID (h.conns c).pubkey key)
  | enrolled {h} (c op hash) (hs : (h.conns c).stage = .serving)
      (ha : (h.conns c).auth = .master) :
      Step P (some c) h (h.enrollLocked op (h.conns c).name hash)
  | left {h h'} (c) (r) (hs : (h.conns c).stage = .reading ∨ (h.conns c).stage = .serving)
      (hc : (h.conns c).closed = true) (hd : h.deregisterLocked c = some (r, h')) :
      Step P (some c) h h'
  | evicted {h} (id) : Step P none h (h.adminEvictLocked id).2
  | aclSet {h} (name allowed) : Step P none h (h.setACLLocked name allowed)

/-- A hub as it starts: no connection, no agent, no mail; channels and secrets are those of its
files. -/
structure Hub.Fresh (h : Hub) : Prop where
  clients : h.clients = ∅
  agents : h.agents = ∅
  evicted : h.evicted = ∅
  mailbox : h.mailbox = ∅
  mailboxDropped : h.mailboxDropped = ∅
  sendIDs : h.sendIDs = {}
  conns : ∀ c, h.conns c = {}

inductive Reachable (P : Platform) : Hub → Prop where
  | fresh {h} (hf : h.Fresh) : Reachable P h
  | step {h h' who} (hr : Reachable P h) (hs : Step P who h h') : Reachable P h'

/-! ### What the sections do -/

namespace Hub

def who (h : Hub) (c : ConnID) : Identity := (h.conns c).identity

theorem who_updConn_of_ne (h : Hub) {c d : ConnID} (f : Conn → Conn) (hd : d ≠ c) :
    (h.updConn c f).who d = h.who d := by
  unfold who
  rw [h.updConn_conns_of_ne f hd]

theorem closed_dropped (h : Hub) (c : ConnID) : ((h.dropped c).conns c).closed = true := by
  simp [dropped]

theorem quiet_updConn (h : Hub) (c : ConnID) (f : Conn → Conn)
    (hid : (f (h.conns c)).identity = (h.conns c).identity)
    (hcl : (h.conns c).closed = true → (f (h.conns c)).closed = true) :
    Quiet h (h.updConn c f) := by
  refine ⟨by constructor <;> rfl, ?_, ?_⟩
  · intro d
    by_cases hd : d = c
    · subst hd; simpa using hid
    · rw [h.updConn_conns_of_ne f hd]
  · intro d hdc
    by_cases hd : d = c
    · subst hd; simpa using hcl hdc
    · rwa [h.updConn_conns_of_ne f hd]

end Hub

theorem SameStore.trans {h1 h2 h3 : Hub} (h12 : SameStore h1 h2) (h23 : SameStore h2 h3) :
    SameStore h1 h3 where
  agents := h23.agents.trans h12.agents
  evicted := h23.evicted.trans h12.evicted
  clients := h23.clients.trans h12.clients
  channels := h23.channels.trans h12.channels
  mailbox := h23.mailbox.trans h12.mailbox
  mailboxDropped := h23.mailboxDropped.trans h12.mailboxDropped
  sendIDs := h23.sendIDs.trans h12.sendIDs
  secrets := h23.secrets.trans h12.secrets
  channelsFile := h23.channelsFile.trans h12.channelsFile
  secretsFile := h23.secretsFile.trans h12.secretsFile

namespace Quiet

theorem of_conns {h h' : Hub} (hs : SameStore h h') (hc : h'.conns = h.conns) : Quiet h h' :=
  ⟨hs, fun d => by rw [hc], fun d hd => by rwa [hc]⟩

theorem refl (h : Hub) : Quiet h h := of_conns (by constructor <;> rfl) rfl

theorem trans {h1 h2 h3 : Hub} (h12 : Quiet h1 h2) (h23 : Quiet h2 h3) : Quiet h1 h3 where
  toSameStore := h12.toSameStore.trans h23.toSameStore
  identity d := (h23.identity d).trans (h12.identity d)
  closed d hd := h23.closed d (h12.closed d hd)

theorem logged (h : Hub) (event : String) (kvs : List (String × String)) :
    Quiet h (h.logged event kvs) := of_conns (by constructor <;> rfl) rfl

theorem closedAs (h : Hub) (c : ConnID) (reason : CloseReason) : Quiet h (h.closedAs c reason) := by
  apply Hub.quiet_updConn
  · split <;> rfl
  · intro hc
    split <;> exact hc

theorem dropped (h : Hub) (c : ConnID) : Quiet h (h.dropped c) :=
  Hub.quiet_updConn h c _ rfl fun _ => rfl

theorem evictOther (h : Hub) (c : ConnID) : Quiet h (h.evictOther c) := by
  unfold Hub.evictOther
  dsimp only
  split
  next old _ =>
    split
    · exact ((closedAs h old .evicted).trans (dropped _ old)).trans (logged _ _ _)
    · exact refl h
  · exact refl h

end Quiet

namespace Hub

theorem closed_evictOther (h : Hub) {c old : ConnID} (hne : old ≠ c)
    (hold : h.clients[(h.conns c).agentID]? = some old) :
    ((h.evictOther c).conns old).closed = true := by
  unfold evictOther
  simp only [hold, ne_eq, hne, not_false_eq_true, if_true]
  exact closed_dropped _ old

/-- What a registration does, apart from the peers it reports. -/
structure Registers (c : ConnID) (h h' : Hub) : Prop where
  clients : h'.clients = h.clients.insert (h.who c).agentID c
  agents : ∃ e : AgentEntry, h'.agents = h.agents.insert (h.who c).agentID e ∧
    e.online = true ∧ e.name = (h.who c).name
  self : h'.who c = { h.who c with stage := .serving }
  others : ∀ d, d ≠ c → h'.who d = h.who d
  closed : ∀ d, (h.conns d).closed = true → (h'.conns d).closed = true
  replaced : ∀ old, old ≠ c → h.clients[(h.who c).agentID]? = some old →
    (h'.conns old).closed = true
  evicted : h'.evicted = h.evicted
  channels : h'.channels = h.channels
  mailbox : h'.mailbox = h.mailbox
  mailboxDropped : h'.mailboxDropped = h.mailboxDropped
  sendIDs : h'.sendIDs = h.sendIDs
  secrets : h'.secrets = h.secrets
  channelsFile : h'.channelsFile = h.channelsFile
  secretsFile : h'.secretsFile = h.secretsFile

theorem registerLocked_spec (h : Hub) (c : ConnID) : Registers c h (h.registerLocked c).2 := by
  have hq := Quiet.evictOther h c
  have hid := hq.identity c
  have hagent : ((h.evictOther c).conns c).agentID = (h.conns c).agentID :=
    congrArg Identity.agentID hid
  have hname : ((h.evictOther c).conns c).name = (h.conns c).name := congrArg Identity.name hid
  refine ⟨?_, ?_, ?_, ?_, ?_, ?_, hq.evicted, hq.channels, hq.mailbox, hq.mailboxDropped,
    hq.sendIDs, hq.secrets, hq.channelsFile, hq.secretsFile⟩
  · exact congrArg (fun m : GoMap ConnID => m.insert (h.conns c).agentID c) hq.clients
  · refine ⟨(h.evictOther c).freshEntry c, ?_, rfl, hname⟩
    change (h.evictOther c).agents.insert ((h.evictOther c).conns c).agentID _ = _
    rw [hq.agents, hagent]
    rfl
  · have hstage := congrArg (fun i : Identity => { i with stage := .serving }) hid
    simpa [registerLocked, upsertAgentLocked, who, Conn.identity, updConn] using hstage
  · intro d hd
    simpa [registerLocked, upsertAgentLocked, who, updConn_conns_of_ne, hd] using hq.identity d
  · intro d hd
    have hd' := hq.closed d hd
    by_cases hdc : d = c
    · subst hdc
      simpa [registerLocked, upsertAgentLocked, updConn] using hd'
    · simpa [registerLocked, upsertAgentLocked, updConn_conns_of_ne, hdc] using hd'
  · intro old hne hold
    have hcl := closed_evictOther h hne hold
    simpa [registerLocked, upsertAgentLocked, updConn_conns_of_ne, hne] using hcl

theorem getElem?_touchLastSeenLocked (h : Hub) (agentID id : String) :
    (h.touchLastSeenLocked agentID).agents[id]? =
      h.agents[id]?.map fun e => if agentID = id then { e with lastSeen := h.nowMS } else e := by
  unfold touchLastSeenLocked
  split
  next e he =>
    rw [GoMap.getElem?_insert_ite]
    split
    next hid => simp [← hid, he]
    next => simp
  next hnone =>
    by_cases hid : agentID = id
    · simp [← hid, hnone]
    · simp [hid]

theorem touchLastSeenLocked_frame (h : Hub) (agentID : String) :
    h.touchLastSeenLocked agentID =
      { h with agents := (h.touchLastSeenLocked agentID).agents } := by
  unfold touchLastSeenLocked
  split <;> rfl

theorem joinLocked_frame (P : Platform) (h : Hub) (c : ConnID) (name chanPub : String) :
    (h.joinLocked P c name chanPub).2 =
      { h with
        channels := (h.joinLocked P c name chanPub).2.channels
        channelsFile := (h.joinLocked P c name chanPub).2.channelsFile } := by
  unfold joinLocked
  dsimp only
  split <;> split <;> rfl

theorem enqueueLocked_frame (h : Hub) (agentID : String) (f : Frame) :
    (h.enqueueLocked agentID f).2 =
      { h with
        mailbox := (h.enqueueLocked agentID f).2.mailbox
        mailboxDropped := (h.enqueueLocked agentID f).2.mailboxDropped } := by
  unfold enqueueLocked
  dsimp only
  split <;> rfl

/-- What a deregistration does: nothing but mark the connection, or take it out of the map. -/
theorem deregisterLocked_spec {h h' : Hub} {c : ConnID} {r : Option (EntryPtr × List ConnID)}
    (hd : h.deregisterLocked c = some (r, h')) :
    ∃ h1 : Hub, h1 = h.updConn c (fun k => { k with stage := .gone }) ∧
      (h.clients[(h.who c).agentID]? ≠ some c ∧ h' = h1 ∨
        h.clients[(h.who c).agentID]? = some c ∧ ∃ e, h.agents[(h.who c).agentID]? = some e ∧
          h' = { h1 with
            clients := h.clients.erase (h.who c).agentID
            agents := h.agents.insert (h.who c).agentID
              { e with online := false, lastSeen := h.nowMS } }) := by
  refine ⟨_, rfl, ?_⟩
  unfold deregisterLocked at hd
  dsimp only at hd
  split at hd
  next hne =>
    obtain ⟨-, rfl⟩ : none = r ∧ _ = h' := by simpa using hd
    exact .inl ⟨hne, rfl⟩
  next heq =>
    split at hd
    next => simp at hd
    next e he =>
      obtain ⟨-, rfl⟩ : some _ = r ∧ _ = h' := by simpa using hd
      exact .inr ⟨not_not.mp heq, e, he, rfl⟩

theorem deregisterLocked_conns {h h' : Hub} {c : ConnID}
    {r : Option (EntryPtr × List ConnID)} (hd : h.deregisterLocked c = some (r, h')) :
    h'.conns = (h.updConn c fun k => { k with stage := .gone }).conns := by
  obtain ⟨h1, rfl, ⟨-, rfl⟩ | ⟨-, e, -, rfl⟩⟩ := deregisterLocked_spec hd <;> rfl

/-- What an eviction does: nothing, or take an offline identity out of the registry. -/
theorem adminEvictLocked_spec (h : Hub) (id : String) :
    (h.adminEvictLocked id).2 = h ∨
      h.clients[id]? = none ∧ (h.adminEvictLocked id).2.agents = h.agents.erase id ∧
        (h.adminEvictLocked id).2.clients = h.clients ∧
        (h.adminEvictLocked id).2.conns = h.conns := by
  unfold adminEvictLocked
  split
  · exact .inl rfl
  split
  · exact .inl rfl
  next hno =>
    right
    have hnone : h.clients[id]? = none := by simpa using hno
    dsimp only
    split
    · split <;> exact ⟨hnone, rfl, rfl, rfl⟩
    · exact ⟨hnone, rfl, rfl, rfl⟩

end Hub

/-! ### The invariant -/

/-- What a connection claims about itself is backed by a verified hello. -/
structure Identity.Sound (P : Platform) (i : Identity) : Prop where
  early : i.stage = .absent ∨ i.stage = .reading → i.authed = false
  late : i.stage = .greeted ∨ i.stage = .serving → i.authed = true
  anonymous : i.authed = false → i.agentID = ""
  signed : i.authed = true → ∃ (f : Frame) (raw : Raw),
    verifySignature P f raw f.pubkey = none ∧ i.pubkey = f.pubkey ∧
      i.agentID = helloAgentID P f.pubkey
  bound : i.authed = true → i.auth = .agent → i.name = i.boundName

/-- The connection map, the registry and the closed flags fit together. -/
structure Coherent (P : Platform) (h : Hub) : Prop where
  client : ∀ (id : String) (c : ConnID), h.clients[id]? = some c →
    (h.who c).stage = .serving ∧ (h.who c).agentID = id ∧
      ∃ e, h.agents[id]? = some e ∧ e.online = true ∧ e.name = (h.who c).name
  online : ∀ (id : String) (e : AgentEntry), h.agents[id]? = some e → e.online = true →
    ∃ c, h.clients[id]? = some c
  replaced : ∀ c, (h.who c).stage = .serving → h.clients[(h.who c).agentID]? ≠ some c →
    (h.conns c).closed = true
  gone : ∀ c, (h.who c).stage = .gone → (h.conns c).closed = true
  sound : ∀ c, (h.who c).Sound P
  registry : h.agents[""]? = none

namespace Identity.Sound

variable {P : Platform} {i : Identity}

theorem agentID_ne_empty (hi : i.Sound P) (ha : i.authed = true) : i.agentID ≠ "" := by
  obtain ⟨f, raw, -, -, hid⟩ := hi.signed ha
  rw [hid]
  exact agentIDFor_ne_empty P _

theorem opened (auth : AuthKind) (boundName : String) :
    Sound P (Conn.identity { auth := auth, boundName := boundName, stage := .reading }) := by
  constructor <;> simp [Conn.identity]

theorem greeted {k : Conn} {f : Frame} {raw : Raw} (hv : verifySignature P f raw f.pubkey = none)
    (hn : k.auth = .agent → f.name = k.boundName) :
    Sound P (k.authenticated P f).identity := by
  constructor <;> simp [Conn.identity, Conn.authenticated]
  · exact ⟨f, ⟨raw, hv⟩, rfl, rfl⟩
  · exact hn

theorem moved (hi : i.Sound P) {stage : Stage} (ha : stage = .serving ∧ i.authed = true ∨
    stage = .gone) : Sound P { i with stage := stage } := by
  refine ⟨?_, ?_, hi.anonymous, hi.signed, hi.bound⟩
  · rcases ha with ⟨rfl, -⟩ | rfl <;> simp
  · rcases ha with ⟨rfl, ha⟩ | rfl
    · exact fun _ => ha
    · simp

end Identity.Sound

namespace Coherent

variable {P : Platform}

theorem of_fresh {h : Hub} (hf : h.Fresh) : Coherent P h := by
  have hwho : ∀ c, h.who c = Conn.identity {} := fun c => congrArg Conn.identity (hf.conns c)
  constructor
  · intro id c hc
    simp [hf.clients] at hc
  · intro id e he
    simp [hf.agents] at he
  · intro c hs
    simp [hwho, Conn.identity] at hs
  · intro c hs
    simp [hwho, Conn.identity] at hs
  · intro c
    rw [hwho]
    constructor <;> simp [Conn.identity]
  · simp [hf.agents]

/-- Only the two maps, the identities and the closed flags matter. -/
theorem frame {h h' : Hub} (hi : Coherent P h) (ha : h'.agents = h.agents)
    (hc : h'.clients = h.clients) (hw : ∀ d, h'.who d = h.who d)
    (hcl : ∀ d, (h.conns d).closed = true → (h'.conns d).closed = true) : Coherent P h' := by
  constructor
  · intro id c hic
    rw [hw, ha]
    exact hi.client id c (hc ▸ hic)
  · intro id e he hon
    rw [hc]
    exact hi.online id e (ha ▸ he) hon
  · intro c hs hne
    rw [hw] at hs hne
    exact hcl c (hi.replaced c hs (hc ▸ hne))
  · intro c hs
    exact hcl c (hi.gone c (hw c ▸ hs))
  · intro c
    rw [hw]
    exact hi.sound c
  · rw [ha]
    exact hi.registry

theorem quiet {h h' : Hub} (hi : Coherent P h) (hq : Quiet h h') : Coherent P h' :=
  hi.frame hq.agents hq.clients hq.identity hq.closed

/-- A connection that is not in the map may change as long as it does not claim to serve. -/
theorem updConn {h : Hub} (hi : Coherent P h) {c : ConnID} {f : Conn → Conn}
    (hout : (h.who c).stage ≠ .serving) (hserving : (f (h.conns c)).stage ≠ .serving)
    (hgone : (f (h.conns c)).stage ≠ .gone) (hsound : (f (h.conns c)).identity.Sound P) :
    Coherent P (h.updConn c f) := by
  have hself : (h.updConn c f).who c = (f (h.conns c)).identity := by simp [Hub.who]
  have hothers : ∀ d, d ≠ c → (h.updConn c f).who d = h.who d :=
    fun d hd => h.who_updConn_of_ne f hd
  constructor
  · intro id d hd
    have hne : d ≠ c := by
      rintro rfl
      exact hout (hi.client id d hd).1
    rw [hothers d hne]
    exact hi.client id d hd
  · exact hi.online
  · intro d hs hne
    by_cases hd : d = c
    · subst hd
      rw [hself] at hs
      exact absurd hs hserving
    · rw [hothers d hd] at hs hne
      rw [h.updConn_conns_of_ne f hd]
      exact hi.replaced d hs hne
  · intro d hs
    by_cases hd : d = c
    · subst hd
      rw [hself] at hs
      exact absurd hs hgone
    · rw [hothers d hd] at hs
      rw [h.updConn_conns_of_ne f hd]
      exact hi.gone d hs
  · intro d
    by_cases hd : d = c
    · subst hd
      rwa [hself]
    · rw [hothers d hd]
      exact hi.sound d
  · exact hi.registry

theorem registered {h h' : Hub} (hi : Coherent P h) {c : ConnID} (hs : (h.who c).stage = .greeted)
    (hr : Hub.Registers c h h') : Coherent P h' := by
  have hauth := (hi.sound c).late (.inl hs)
  have hne := (hi.sound c).agentID_ne_empty hauth
  obtain ⟨e, hagents, hon, hname⟩ := hr.agents
  constructor
  · intro id d hd
    rw [hr.clients, GoMap.getElem?_insert_ite] at hd
    rw [hagents, GoMap.getElem?_insert_ite]
    split at hd
    next hid =>
      obtain rfl : c = d := Option.some.inj hd
      rw [hr.self, if_pos hid]
      exact ⟨rfl, hid, e, rfl, hon, hname⟩
    next hid =>
      have hdc : d ≠ c := by
        rintro rfl
        rw [(hi.client id d hd).1] at hs
        simp at hs
      rw [hr.others d hdc, if_neg hid]
      exact hi.client id d hd
  · intro id e' he hon'
    rw [hagents, GoMap.getElem?_insert_ite] at he
    rw [hr.clients, GoMap.getElem?_insert_ite]
    split at he
    next hid => exact ⟨c, if_pos hid⟩
    next hid =>
      rw [if_neg hid]
      exact hi.online id e' he hon'
  · intro d hsd hnd
    by_cases hdc : d = c
    · subst hdc
      rw [hr.self, hr.clients, GoMap.getElem?_insert_ite] at hnd
      simp at hnd
    · rw [hr.others d hdc] at hsd hnd
      by_cases hold : h.clients[(h.who d).agentID]? = some d
      · rw [hr.clients, GoMap.getElem?_insert_ite] at hnd
        split at hnd
        next hid => exact hr.replaced d hdc (hid ▸ hold)
        next => exact absurd hold hnd
      · exact hr.closed d (hi.replaced d hsd hold)
  · intro d hsd
    by_cases hdc : d = c
    · subst hdc
      rw [hr.self] at hsd
      simp at hsd
    · rw [hr.others d hdc] at hsd
      exact hr.closed d (hi.gone d hsd)
  · intro d
    by_cases hdc : d = c
    · subst hdc
      rw [hr.self]
      exact (hi.sound d).moved (.inl ⟨rfl, hauth⟩)
    · rw [hr.others d hdc]
      exact hi.sound d
  · rw [hagents, GoMap.getElem?_insert_ite, if_neg hne]
    exact hi.registry

theorem touched {h : Hub} (hi : Coherent P h) (agentID : String) :
    Coherent P (h.touchLastSeenLocked agentID) := by
  have hlook := h.getElem?_touchLastSeenLocked agentID
  rw [h.touchLastSeenLocked_frame agentID]
  refine ⟨?_, ?_, hi.replaced, hi.gone, hi.sound, ?_⟩
  · intro id c hc
    obtain ⟨hs, ha, e, he, hon, hname⟩ := hi.client id c hc
    refine ⟨hs, ha, _, (hlook id).trans (congrArg _ he), ?_, ?_⟩
    · dsimp only
      split <;> exact hon
    · dsimp only
      split <;> exact hname
  · intro id e he hon
    obtain ⟨e0, he0, rfl⟩ := Option.map_eq_some_iff.mp ((hlook id).symm.trans he)
    refine hi.online id e0 he0 ?_
    split at hon <;> exact hon
  · exact (hlook "").trans (congrArg _ hi.registry)

theorem left {h h' : Hub} (hi : Coherent P h) {c : ConnID} {r : Option (EntryPtr × List ConnID)}
    (hcl : (h.conns c).closed = true) (hd : h.deregisterLocked c = some (r, h')) :
    Coherent P h' := by
  have hconns := Hub.deregisterLocked_conns hd
  obtain ⟨h1, rfl, hcase⟩ := Hub.deregisterLocked_spec hd
  have hself : h'.who c = { h.who c with stage := .gone } := by
    simp [Hub.who, hconns, Conn.identity]
  have hothers : ∀ d, d ≠ c → h'.who d = h.who d := by
    intro d hdc
    simp [Hub.who, hconns, Hub.updConn_conns_of_ne, hdc]
  have hclosed : ∀ d, (h.conns d).closed = true → (h'.conns d).closed = true := by
    intro d hdcl
    by_cases hdc : d = c
    · subst hdc
      simpa [hconns] using hdcl
    · simpa [hconns, Hub.updConn_conns_of_ne, hdc] using hdcl
  have hclients : ∀ (id : String) (d : ConnID), h'.clients[id]? = some d ↔
      h.clients[id]? = some d ∧ d ≠ c := by
    intro id d
    rcases hcase with ⟨hne, rfl⟩ | ⟨heq, e, -, rfl⟩
    · refine ⟨fun hid => ⟨hid, ?_⟩, fun hid => hid.1⟩
      rintro rfl
      exact hne ((hi.client id d hid).2.1 ▸ hid)
    · dsimp only
      rw [GoMap.getElem?_erase_ite]
      constructor
      · intro hid
        split at hid
        next => simp at hid
        next hne =>
          refine ⟨hid, ?_⟩
          rintro rfl
          exact hne (hi.client id d hid).2.1
      · rintro ⟨hid, hdc⟩
        rw [if_neg]
        · exact hid
        · rintro rfl
          exact hdc (Option.some.inj (hid.symm.trans heq))
  have hagents : ∀ id : String, id ≠ (h.who c).agentID ∨
      h.clients[(h.who c).agentID]? ≠ some c → h'.agents[id]? = h.agents[id]? := by
    intro id hid
    rcases hcase with ⟨-, rfl⟩ | ⟨heq, e, -, rfl⟩
    · rfl
    · rcases hid with hid | hid
      · exact (GoMap.getElem?_insert_ite _ _ _ _).trans (if_neg (Ne.symm hid))
      · exact absurd heq hid
  constructor
  · intro id d hid
    obtain ⟨hold, hdc⟩ := (hclients id d).mp hid
    rw [hothers d hdc]
    obtain ⟨hs, ha, e, he, hrest⟩ := hi.client id d hold
    refine ⟨hs, ha, e, (hagents id ?_).trans he, hrest⟩
    by_cases hmap : h.clients[(h.who c).agentID]? = some c
    · left
      rintro rfl
      exact hdc (Option.some.inj (hold.symm.trans hmap))
    · exact .inr hmap
  · intro id e he hon
    by_cases hsame : id ≠ (h.who c).agentID ∨ h.clients[(h.who c).agentID]? ≠ some c
    · rw [hagents id hsame] at he
      obtain ⟨d, hd'⟩ := hi.online id e he hon
      refine ⟨d, (hclients id d).mpr ⟨hd', ?_⟩⟩
      rintro rfl
      have hid := (hi.client id d hd').2.1
      rcases hsame with hne | hne
      · exact hne hid.symm
      · exact hne (hid ▸ hd')
    · obtain ⟨hid, hmap⟩ := not_or.mp hsame
      rw [not_not] at hid hmap
      rcases hcase with ⟨hne, -⟩ | ⟨-, e0, -, rfl⟩
      · exact absurd hmap hne
      · have hnew := (GoMap.getElem?_insert_ite h.agents (h.who c).agentID id
          { e0 with online := false, lastSeen := h.nowMS }).trans (if_pos hid.symm)
        obtain rfl := Option.some.inj (hnew.symm.trans he)
        simp at hon
  · intro d hs hne
    by_cases hdc : d = c
    · subst hdc
      exact hclosed d hcl
    · rw [hothers d hdc] at hs hne
      exact hclosed d (hi.replaced d hs fun hold => hne ((hclients _ d).mpr ⟨hold, hdc⟩))
  · intro d hs
    by_cases hdc : d = c
    · subst hdc
      exact hclosed d hcl
    · rw [hothers d hdc] at hs
      exact hclosed d (hi.gone d hs)
  · intro d
    by_cases hdc : d = c
    · subst hdc
      rw [hself]
      exact (hi.sound d).moved (.inr rfl)
    · rw [hothers d hdc]
      exact hi.sound d
  · by_cases hempty : (h.who c).agentID = ""
    · refine (hagents "" (.inr ?_)).trans hi.registry
      intro hmap
      obtain ⟨hs, -, -⟩ := hi.client _ c hmap
      exact (hi.sound c).agentID_ne_empty ((hi.sound c).late (.inr hs)) hempty
    · exact (hagents "" (.inl (Ne.symm hempty))).trans hi.registry

theorem evicted {h : Hub} (hi : Coherent P h) (id : String) :
    Coherent P (h.adminEvictLocked id).2 := by
  rcases h.adminEvictLocked_spec id with heq | ⟨hoff, hagents, hclients, hconns⟩
  · rwa [heq]
  · have hwho : ∀ d, (h.adminEvictLocked id).2.who d = h.who d := by simp [Hub.who, hconns]
    constructor
    · intro id' c hc
      rw [hclients] at hc
      rw [hwho, hagents, GoMap.getElem?_erase_ite, if_neg]
      · exact hi.client id' c hc
      · rintro rfl
        rw [hoff] at hc
        simp at hc
    · intro id' e he hon
      rw [hagents, GoMap.getElem?_erase_ite] at he
      rw [hclients]
      split at he
      · simp at he
      · exact hi.online id' e he hon
    · intro c hs hne
      rw [hwho] at hs hne
      rw [hconns]
      exact hi.replaced c hs (hclients ▸ hne)
    · intro c hs
      rw [hwho] at hs
      rw [hconns]
      exact hi.gone c hs
    · intro c
      rw [hwho]
      exact hi.sound c
    · rw [hagents, GoMap.getElem?_erase_ite, hi.registry, ite_self]

theorem step {h h' : Hub} {who : Option ConnID} (hi : Coherent P h) (hs : Step P who h h') :
    Coherent P h' := by
  cases hs with
  | quiet hq => exact hi.quiet hq
  | opened c auth boundName hs =>
    refine hi.updConn ?_ (by simp) (by simp) (.opened auth boundName)
    intro hserving
    exact absurd (hs.symm.trans hserving) (by decide)
  | greeted c f raw hs hv hn =>
    refine hi.updConn ?_ (by simp [Conn.authenticated]) (by simp [Conn.authenticated])
      (.greeted hv hn)
    intro hserving
    exact absurd (hs.symm.trans hserving) (by decide)
  | registered c hs => exact hi.registered hs (h.registerLocked_spec c)
  | touched c hs => exact hi.touched _
  | joined c name chanPub hs =>
    rw [Hub.joinLocked_frame]
    exact hi.frame rfl rfl (fun _ => rfl) fun _ hc => hc
  | enqueued c agentID f hs =>
    rw [Hub.enqueueLocked_frame]
    exact hi.frame rfl rfl (fun _ => rfl) fun _ hc => hc
  | drained c hs => exact hi.frame rfl rfl (fun _ => rfl) fun _ hc => hc
  | latched c key hs => exact hi.frame rfl rfl (fun _ => rfl) fun _ hc => hc
  | enrolled c op hash hs ha => exact hi.frame rfl rfl (fun _ => rfl) fun _ hc => hc
  | left c r hs hc hd => exact hi.left hc hd
  | evicted id => exact hi.evicted id
  | aclSet name allowed => exact hi.frame rfl rfl (fun _ => rfl) fun _ hc => hc

theorem reachable {h : Hub} (hr : Reachable P h) : Coherent P h := by
  induction hr with
  | fresh hf => exact of_fresh hf
  | step _ hs ih => exact ih.step hs

theorem deregisterLocked_ne_none {h : Hub} (hi : Coherent P h) (c : ConnID) :
    h.deregisterLocked c ≠ none := by
  unfold Hub.deregisterLocked
  dsimp only
  split
  · simp
  next hmap =>
    obtain ⟨-, -, e, he, -⟩ := hi.client _ c (not_not.mp hmap)
    have he' : h.agents[(h.conns c).agentID]? = some e := he
    split
    next hnone => simp [Hub.updConn, he'] at hnone
    next => simp

end Coherent

/-- The connection has been through `register`, and may since have left. -/
def Conn.Registered (k : Conn) : Prop := k.stage = .serving ∨ k.stage = .gone ∧ k.authed = true

variable {P : Platform}

/-- In every reachable state a connection in the map is authenticated under its id, whose entry is
online; only such entries are online; and a registered connection outside the map has been
dropped. -/
theorem registry_coherent {h : Hub} (hr : Reachable P h) :
    (∀ (id : String) (c : ConnID), h.clients[id]? = some c →
      (h.conns c).authed = true ∧ (h.conns c).agentID = id ∧
        ∃ e, h.agents[id]? = some e ∧ e.online = true) ∧
    (∀ (id : String) (e : AgentEntry), h.agents[id]? = some e → e.online = true →
      ∃ c, h.clients[id]? = some c) ∧
    (∀ c, (h.conns c).Registered → h.clients[(h.conns c).agentID]? ≠ some c →
      (h.conns c).closed = true) ∧
    (∀ c, h.deregisterLocked c ≠ none) ∧
    (∀ c d, (h.conns c).Registered → (h.conns d).Registered →
      (h.conns c).agentID = (h.conns d).agentID → (h.conns c).closed = false →
      (h.conns d).closed = false → c = d) := by
  have hi := Coherent.reachable hr
  have hreplaced : ∀ c, (h.conns c).Registered → h.clients[(h.conns c).agentID]? ≠ some c →
      (h.conns c).closed = true := by
    rintro c (hs | ⟨hs, -⟩) hne
    · exact hi.replaced c hs hne
    · exact hi.gone c hs
  refine ⟨?_, hi.online, hreplaced, hi.deregisterLocked_ne_none, ?_⟩
  · intro id c hc
    obtain ⟨hs, ha, e, he, hon, -⟩ := hi.client id c hc
    exact ⟨(hi.sound c).late (.inr hs), ha, e, he, hon⟩
  · intro c d hc hd hsame hco hdo
    have hmap : ∀ c, (h.conns c).Registered → (h.conns c).closed = false →
        h.clients[(h.conns c).agentID]? = some c := by
      intro c hc hopen
      by_contra hne
      rw [hreplaced c hc hne] at hopen
      exact Bool.noConfusion hopen
    exact Option.some.inj ((hmap c hc hco).symm.trans (hsame ▸ hmap d hd hdo))

/-- A connection taken through the upgrade, its hello and its registration. -/
def Hub.admitted (P : Platform) (h : Hub) (c : ConnID) (auth : AuthKind) (boundName : String)
    (f : Frame) : Hub :=
  (Hub.registerLocked c
    ((h.openConn c auth boundName).updConn c fun k => k.authenticated P f)).2

theorem Reachable.admitted {h : Hub} (hr : Reachable P h) {c : ConnID} {auth : AuthKind}
    {boundName : String} {f : Frame} {raw : Raw} (hs : (h.conns c).stage = .absent)
    (hv : verifySignature P f raw f.pubkey = none) (hn : auth = .agent → f.name = boundName) :
    Reachable P (h.admitted P c auth boundName f) := by
  have h1 : Reachable P (h.openConn c auth boundName) := hr.step (.opened c auth boundName hs)
  have h2 : Reachable P ((h.openConn c auth boundName).updConn c fun k => k.authenticated P f) := by
    refine h1.step (.greeted c f raw ?_ hv ?_) <;> simp only [Hub.openConn, Hub.updConn_conns_self]
    exact hn
  refine h2.step (.registered c ?_)
  rw [Hub.updConn_conns_self]
  rfl

theorem Hub.Fresh.empty : ({} : Hub).Fresh := ⟨rfl, rfl, rfl, rfl, rfl, rfl, fun _ => rfl⟩

theorem Reachable.empty : Reachable P {} := .fresh .empty

theorem registry_coherent_sample :
    let h := (({} : Hub).admitted lenientPlatform 0 .master "" (sampleHello 0)).admitted
      lenientPlatform 1 .master "" (sampleHello 0)
    h.deregisterLocked 0 ≠ none ∧ ((h.conns 0).Registered →
      h.clients[(h.conns 0).agentID]? ≠ some 0 → (h.conns 0).closed = true) := by
  have hr : Reachable lenientPlatform
      ((({} : Hub).admitted lenientPlatform 0 .master "" (sampleHello 0)).admitted
        lenientPlatform 1 .master "" (sampleHello 0)) :=
    (Reachable.empty.admitted rfl (sampleHello_verifies 0 []) (by simp)).admitted rfl
      (sampleHello_verifies 0 []) (by simp)
  obtain ⟨-, -, hclosed, hleave, -⟩ := registry_coherent hr
  exact ⟨hleave 0, hclosed 0⟩

end Dap
