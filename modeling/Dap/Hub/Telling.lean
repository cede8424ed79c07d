import Dap.Hub.Announcements

/-! What a read loop tells of agents' keys and names: the cards in the frames that it queues,
against the sections before (`hub/auth.go`, `hub/relay.go`, `hub/presence.go`). -/
namespace Dap
open Proc

variable {P : Platform} {c d : ConnID} {messages : List Message} {past : List HubSection}

/-- What an agent tells of itself. -/
structure Card where
  pubkey : String
  x25519 : String
  name : String
  deriving DecidableEq

def Frame.card (f : Frame) : Card := ⟨f.pubkey, f.x25519, f.name⟩

def Conn.card (k : Conn) : Card := ⟨k.pubkey, k.x25519, k.name⟩

def AgentEntry.card (a : AgentEntry) : Card := ⟨a.pubkey, a.x25519, a.name⟩

def AgentInfo.card (i : AgentInfo) : Card := ⟨i.pubkey, i.x25519, i.name⟩

/-- The agents that a frame of the hub tells of. -/
def Frame.cards (f : Frame) : List (String × Card) :=
  if f.op = "agent_info" then [(f.agentID, f.card)]
  else if f.op = "presence" then f.agents.map fun i => (i.agentID, i.card)
  else []

/-- The frame tells of agents as one look at the registry found them: `agent_info`, and the answer
to a query with an id. -/
def Frame.whole (f : Frame) : Prop := f.op = "agent_info" ∨ f.replyTo ≠ ""

/-- Each part of the card is that of one of these cards. -/
structure Pieced (φ : Card → Prop) (k : Card) : Prop where
  pubkey : ∃ k', φ k' ∧ k'.pubkey = k.pubkey
  x25519 : ∃ k', φ k' ∧ k'.x25519 = k.x25519
  name : ∃ k', φ k' ∧ k'.name = k.name

theorem Pieced.of_whole {φ : Card → Prop} {k : Card} (h : φ k) : Pieced φ k :=
  ⟨⟨k, h, rfl⟩, ⟨k, h, rfl⟩, k, h, rfl⟩

theorem Pieced.mono {φ ψ : Card → Prop} {k : Card} (h : Pieced φ k) (hm : ∀ k, φ k → ψ k) :
    Pieced ψ k := by
  obtain ⟨⟨k1, h1, hpub⟩, ⟨k2, h2, hx⟩, k3, h3, hname⟩ := h
  exact ⟨⟨k1, hm k1 h1, hpub⟩, ⟨k2, hm k2 h2, hx⟩, k3, hm k3 h3, hname⟩

/-- `c` has said the hello: it came in one of the messages and was accepted, and its name is the one
that an issued secret is for. -/
structure Said (P : Platform) (c : ConnID) (messages : List Message) (past : List HubSection)
    (f : Frame) : Prop where
  accepted : ∃ data raw, .text data ∈ messages ∧ parseFrame data = some (f, raw) ∧
    frameOp f raw = "hello" ∧ ∃ e ∈ past, e.label = .nonces ∧
      (checkHello P f raw e.pre.clock e.pre.nonces).1 = none
  bound : ∃ e ∈ past, e.label = .own c ∧
    ((e.pre.conns c).auth = .agent → f.name = (e.pre.conns c).boundName)

theorem Said.append {f : Frame} (h : Said P c messages past f) (t : List HubSection) :
    Said P c messages (past ++ t) f := by
  obtain ⟨⟨data, raw, hdata, hp, hop, e, he, hrest⟩, e', he', hb⟩ := h
  exact ⟨⟨data, raw, hdata, hp, hop, e, List.mem_append_left _ he, hrest⟩, e',
    List.mem_append_left _ he', hb⟩

/-- The section of a registration or a deregistration, in which a pointer is taken to the entry. -/
structure FindsEntry (c : ConnID) (x : HubSection) : Prop where
  client : x.pre.clients[(x.pre.conns c).agentID]? = some c ∨
    x.post.clients[(x.pre.conns c).agentID]? = some c
  entry : x.post.agents[(x.pre.conns c).agentID]?.isSome

/-- Where a read loop has the card of an agent from: a look at the registry, its own connection, or
a look through the pointer. -/
inductive Knows (c : ConnID) (past : List HubSection) (id : String) (k : Card) : Prop where
  | registry {e : HubSection} {a : AgentEntry} (he : e ∈ past) (ha : e.pre.agents[id]? = some a)
      (hk : a.card = k)
  | itself {u v : List HubSection} {x y own : HubSection} (hp : past = u ++ x :: v)
      (hx : (x.pre.conns c).authed = true ∨ (x.post.conns c).authed = true) (hy : y ∈ v)
      (hk : (y.pre.conns c).card = k) (hown : own ∈ v) (hid : (own.pre.conns c).agentID = id)
  | pointer {u v : List HubSection} {x y own : HubSection} (hp : past = u ++ x :: v)
      (hx : FindsEntry c x) (hy : y ∈ v)
      (hk : (y.pre.deref (x.post.pointTo (x.pre.conns c).agentID)).card = k) (hown : own ∈ v)
      (hid : (own.pre.conns c).agentID = id)

theorem Knows.append {id : String} {k : Card} (h : Knows c past id k) (t : List HubSection) :
    Knows c (past ++ t) id k := by
  cases h with
  | registry he ha hk => exact .registry (List.mem_append_left _ he) ha hk
  | @itself u v x y own hp hx hy hk hown hid =>
    refine .itself (u := u) (x := x) (v := v ++ t) ?_ hx (List.mem_append_left _ hy) hk
      (List.mem_append_left _ hown) hid
    rw [hp, List.append_assoc, List.cons_append]
  | @pointer u v x y own hp hx hy hk hown hid =>
    refine .pointer (u := u) (x := x) (v := v ++ t) ?_ hx (List.mem_append_left _ hy) hk
      (List.mem_append_left _ hown) hid
    rw [hp, List.append_assoc, List.cons_append]

/-- The frame is mail, or tells only what the read loop knows. -/
def Grounded (c : ConnID) (past : List HubSection) (f : Frame) : Prop :=
  (∃ e ∈ past, ∃ id : String, f ∈ e.pre.mailbox[id]?.getD []) ∨
    (f.whole → ∀ t ∈ f.cards, Knows c past t.1 t.2) ∧ ∀ t ∈ f.cards, Pieced (Knows c past t.1) t.2

theorem Grounded.of_knows {f : Frame} (h : ∀ t ∈ f.cards, Knows c past t.1 t.2) :
    Grounded c past f := .inr ⟨fun _ => h, fun t ht => .of_whole (h t ht)⟩

theorem Grounded.append {f : Frame} (h : Grounded c past f) (t : List HubSection) :
    Grounded c (past ++ t) f := by
  rcases h with ⟨e, he, hmail⟩ | h
  · exact .inl ⟨e, List.mem_append_left _ he, hmail⟩
  · refine .inr ⟨fun hw x hx => (h.1 hw x hx).append t, fun x hx => ?_⟩
    exact (h.2 x hx).mono fun _ hk => hk.append t

/-- Writes that leave the card alone, and the one that takes it from a hello. -/
inductive CardWrite (P : Platform) (said : Frame → Prop) : (Conn → Conn) → Prop where
  | code (code : String) : CardWrite P said (setCode code)
  | traced (f : Frame) : CardWrite P said fun k => k.traced P f
  | greeted (f : Frame) (hf : said f) : CardWrite P said fun k => k.authenticated P f

/-- What the read loop may do after these sections. -/
def tellingScope (P : Platform) (c : ConnID) (messages : List Message) (past : List HubSection) :
    Scope where
  writes := CardWrite P (Said P c messages past)
  sends _ r := ∀ f, r = .frame f → Grounded c past f
  stores _ _ := True
  does := Task P c

/-- What it may do whatever was before. -/
def untelling (P : Platform) (c : ConnID) : Scope where
  writes := CardWrite P fun _ => False
  sends _ r := ∀ f, r = .frame f → f.cards = []
  stores _ _ := True
  does := Task P c

theorem untelling_refuses (code : String) : (untelling P c).Refuses c code := by
  refine ⟨.code code, ?_⟩
  rintro msg f hf
  rw [← Reply.frame.inj hf]
  rfl

theorem CardWrite.mono {said said' : Frame → Prop} (h : ∀ f, said f → said' f) {w : Conn → Conn}
    (hw : CardWrite P said w) : CardWrite P said' w := by
  cases hw with
  | code code => exact .code code
  | traced f => exact .traced f
  | greeted f hf => exact .greeted f (h f hf)

theorem telling_of_untelling {e : HubSection} (he : Act c (untelling P c) e) :
    Act c (tellingScope P c messages past) e := by
  have hsends : ∀ d r, (untelling P c).sends d r → (tellingScope P c messages past).sends d r := by
    intro d r hr f hf
    refine .of_knows fun t ht => ?_
    rw [hr f hf] at ht
    cases ht
  exact he.mono (fun w hw => CardWrite.mono (fun _ h => h.elim) hw) hsends (fun _ _ h => h)
    fun _ h => h

section Programs

variable {α β : Type} {Q : List HubSection → Prop} {p : HubProc α}

/-- After sections of which `Q` holds the program tells what the read loop knows. -/
abbrev TellsAfter (P : Platform) (c : ConnID) (messages : List Message)
    (Q : List HubSection → Prop) (p : HubProc α) : Prop :=
  Guided (fun past e => Act c (tellingScope P c messages past) e) Q p

theorem tellsAfter_untelling (hp : Emits (Act c (untelling P c)) p) : TellsAfter P c messages Q p :=
  (Guided.of_emits (Q := fun _ => True) hp (fun _ _ _ => trivial)
    fun _ _ _ => telling_of_untelling).mono fun _ _ => trivial

theorem tellsAfter_bind_untelling {k : α → HubProc β} (hp : Emits (Act c (untelling P c)) p)
    (hQ : Lasting Q) (hk : ∀ a, TellsAfter P c messages Q (k a)) :
    TellsAfter P c messages Q (p >>= k) :=
  Guided.bind_emits hp hQ (fun _ _ _ => telling_of_untelling) hk

/-! ### The programs -/

/-- Nothing but queueing these frames. -/
def sending (frames : Frame → Prop) : Scope where
  sends _ r := ∃ f, r = .frame f ∧ frames f

theorem tellsAfter_sending {frames : Frame → Prop} (hp : Emits (Act c (sending frames)) p)
    (hQ : Lasting Q) (hf : ∀ past f, Q past → frames f → Grounded c past f) :
    TellsAfter P c messages Q p := by
  refine Guided.of_emits hp hQ fun past e hq he => ?_
  refine he.mono (fun _ h => False.elim h) ?_ (fun _ _ h => False.elim h) fun _ h => False.elim h
  rintro d r ⟨f, rfl, hok⟩ g hg
  exact Reply.frame.inj hg ▸ hf past f hq hok

theorem tellsAfter_announced {peers : List ConnID} {id : String} {a : AgentEntry} (hQ : Lasting Q)
    (hk : ∀ past, Q past → Pieced (Knows c past id) a.card) :
    TellsAfter P c messages Q (sendPresence peers id a) := by
  have hbroadcast : ∀ a, ¬ (presenceBroadcast id a).whole := by
    rintro a (hop | hreply)
    · exact absurd hop (by change "presence" ≠ "agent_info"; decide)
    · exact hreply rfl
  have hsent : Emits (Act c (sending fun f => ¬ f.whole ∧ f.cards = [(id, a.card)]))
      (sendPresence peers id a) := by
    unfold sendPresence
    split
    · exact Emits.pure _
    · exact Emits.bind (Act.read rfl) fun now => Emits.forM fun p _ =>
        Emits.bind (Act.sendFrame ⟨_, rfl, hbroadcast _, rfl⟩) fun _ => Emits.pure _
  refine tellsAfter_sending hsent hQ fun past f hq hsending => ?_
  obtain ⟨hwhole, hf⟩ := hsending
  refine .inr ⟨fun h => ?_, fun t ht => ?_⟩
  · exact absurd h hwhole
  · rw [hf] at ht
    obtain rfl := List.mem_singleton.mp ht
    exact hk past hq

theorem tellsAfter_handleWhois (f : Frame) : TellsAfter P c messages Q (handleWhois c f) := by
  unfold handleWhois lookupAgent
  refine Guided.bind_atomically (R := fun e past => e ∈ past)
    (fun _ _ _ _ => .observed rfl) (fun past e _ => by simp) fun s pick => ?_
  dsimp only
  split
  · exact tellsAfter_untelling (Act.sendErr (untelling_refuses _) _)
  next a ha =>
    have hsent : Emits (Act c (sending fun g => g = agentInfoFrame f.agentID a)) (do
        let _ ← sendFrame c (.frame (agentInfoFrame f.agentID a))) :=
      Emits.bind (Act.sendFrame ⟨_, rfl, rfl⟩) fun _ => Emits.pure _
    refine tellsAfter_sending hsent (lasting_mem _) fun past g he hg => .of_knows fun t ht => ?_
    rw [hg] at ht
    obtain rfl := List.mem_singleton.mp ht
    exact .registry he ha rfl

theorem tellsAfter_handlePresenceQuery (f : Frame) :
    TellsAfter P c messages Q (handlePresenceQuery c f) := by
  unfold handlePresenceQuery presenceList
  refine Guided.bind_atomically (R := fun e past => e ∈ past)
    (fun _ _ _ _ => .observed rfl) (fun past e _ => by simp) fun s pick => ?_
  have hsent : Emits (Act c (sending fun g => g = presenceAnswer f.id s.presenceList)) (do
      let _ ← sendFrame c (.frame (presenceAnswer f.id s.presenceList))) :=
    Emits.bind (Act.sendFrame ⟨_, rfl, rfl⟩) fun _ => Emits.pure _
  refine tellsAfter_sending hsent (lasting_mem _) fun past g he hg => .of_knows fun t ht => ?_
  rw [hg] at ht
  obtain ⟨i, hi, rfl⟩ := List.mem_map.mp ht
  obtain ⟨⟨id, a⟩, ha, rfl⟩ := List.mem_map.mp hi
  exact .registry he (GoMap.mem_toList.mp ha) rfl

theorem tellsAfter_handleFlush : TellsAfter P c messages Q (handleFlush c) := by
  unfold handleFlush drain
  refine Guided.bind_atomically (R := fun _ _ => True) (fun _ _ _ _ => .observed rfl)
    (fun _ _ _ => trivial) fun own _ => ?_
  refine Guided.bind_atomically (R := fun e past => e ∈ past)
    (fun _ _ _ _ => .other (.drained _)) (fun past e _ => by simp) fun s pick => ?_
  dsimp only
  let msgs := s.mailbox[(own.conns c).agentID]?.getD []
  have hsent : Emits (Act c (sending fun g => g ∈ msgs)) (msgs.forM fun m => do
      let _ ← sendFrame c (.frame m)) :=
    Emits.forM fun m hm => Emits.bind (Act.sendFrame ⟨m, rfl, hm⟩) fun _ => Emits.pure _
  refine Guided.bind (tellsAfter_sending hsent (lasting_mem _) fun past g he hg => ?_) fun _ =>
    tellsAfter_untelling ?_
  · exact .inl ⟨_, he, _, hg⟩
  · have hend : Emits (Act c (untelling P c)) (do
        let _ ← sendFrame c (.frame (flushedFrame msgs.length))
        logf "flush" fun _ => [("agent", (own.conns c).agentID), ("count", toString msgs.length),
          ("overflowed", toString (s.drainLocked (own.conns c).agentID).1.2)]) := by
      refine Emits.bind (Act.sendFrame fun g hg => ?_) fun _ => Act.logf _ _
      rw [← Reply.frame.inj hg]
      rfl
    split
    · exact Emits.bind (Act.sendErr (untelling_refuses _) _) fun _ => hend
    · exact hend

theorem tellsAfter_enroll (op : EnrollOp) : TellsAfter P c messages Q (enroll P c op) := by
  apply tellsAfter_untelling
  unfold enroll
  refine Emits.bind (Act.read rfl) fun k => ?_
  split
  · exact Act.sendErr (untelling_refuses _) _
  · refine Emits.bind (Act.does fun _ _ => .drawn) fun secret => ?_
    refine Emits.bind (Act.does fun _ _ => .enrolled _ _ _) fun _ => ?_
    refine Emits.bind (Act.logf _ _) fun _ => ?_
    exact Emits.bind (Act.sendFrame fun g hg => by cases hg) fun _ => Emits.pure _

theorem tellsAfter_handleSend (f : Frame) (raw : Raw) :
    TellsAfter P c messages Q (handleSend P c f raw) := by
  refine tellsAfter_untelling (Act.handleSend untelling_refuses (fun _ _ => .looked)
    (fun _ _ _ _ => .latched _ _) (fun d sender g hg => ?_) (fun _ _ => trivial) raw)
  rw [← Reply.frame.inj hg]
  unfold routed
  split <;> rfl

/-- The connection was authenticated, and the sections of `t` are later. -/
def Signed (c : ConnID) (t past : List HubSection) : Prop :=
  ∃ u x v, past = u ++ x :: v ∧
    ((x.pre.conns c).authed = true ∨ (x.post.conns c).authed = true) ∧ ∀ e ∈ t, e ∈ v

theorem lasting_signed (t : List HubSection) : Lasting (Signed c t) := by
  rintro past e ⟨u, x, v, rfl, hx, ht⟩
  exact ⟨u, x, v ++ [e], by simp, hx, fun y hy => List.mem_append_left _ (ht y hy)⟩

theorem Signed.concat {t : List HubSection} (h : Signed c t past) (e : HubSection) :
    Signed c (e :: t) (past ++ [e]) := by
  obtain ⟨u, x, v, rfl, hx, ht⟩ := h
  refine ⟨u, x, v ++ [e], by simp, hx, fun y hy => ?_⟩
  rcases List.mem_cons.mp hy with rfl | hy
  · exact List.mem_append_right _ (List.mem_singleton_self _)
  · exact List.mem_append_left _ (ht y hy)

theorem Signed.knows {y own : HubSection} {t : List HubSection} (h : Signed c (own :: t) past)
    (hy : y ∈ own :: t) : Knows c past (own.pre.conns c).agentID (y.pre.conns c).card := by
  obtain ⟨u, x, v, rfl, hx, ht⟩ := h
  exact .itself rfl hx (ht y hy) rfl (ht own List.mem_cons_self) rfl

/-- The sections of `t` are later than `x`. -/
def Trails (x : HubSection) (t past : List HubSection) : Prop :=
  ∃ u v, past = u ++ x :: v ∧ ∀ e ∈ t, e ∈ v

theorem lasting_trails (x : HubSection) (t : List HubSection) : Lasting (Trails x t) := by
  rintro past e ⟨u, v, rfl, ht⟩
  exact ⟨u, v ++ [e], by simp, fun y hy => List.mem_append_left _ (ht y hy)⟩

theorem Trails.concat {x : HubSection} {t : List HubSection} (h : Trails x t past)
    (e : HubSection) : Trails x (e :: t) (past ++ [e]) := by
  obtain ⟨u, v, rfl, ht⟩ := h
  refine ⟨u, v ++ [e], by simp, fun y hy => ?_⟩
  rcases List.mem_cons.mp hy with rfl | hy
  · exact List.mem_append_right _ (List.mem_singleton_self _)
  · exact List.mem_append_left _ (ht y hy)

theorem trails_now (x : HubSection) (past : List HubSection) : Trails x [] (past ++ [x]) :=
  ⟨past, [], rfl, fun _ he => by cases he⟩

theorem Trails.knows {x y : HubSection} {t : List HubSection} (h : Trails x t past)
    (own : HubSection) (hx : FindsEntry c x) (hy : y ∈ t) (hown : own ∈ t) :
    Knows c past (own.pre.conns c).agentID
      (y.pre.deref (x.post.pointTo (x.pre.conns c).agentID)).card := by
  obtain ⟨u, v, rfl, ht⟩ := h
  exact .pointer rfl hx (ht y hy) rfl (ht own hown) rfl

/-- What is announced of an entry is read through the pointer later, one part after the other. -/
theorem tellsAfter_readEntry {x : HubSection} {peers : List ConnID} {online : Bool}
    (hx : FindsEntry c x) : TellsAfter P c messages (Trails x []) (do
      let id ← Proc.read (.own c) fun h => (h.conns c).agentID
      let e ← readEntry (x.post.pointTo (x.pre.conns c).agentID)
      sendPresence peers id { e with online }) := by
  refine Guided.bind_atomically (R := fun own => Trails x [own]) (fun _ _ _ _ => .observed rfl)
    (fun _ e h => h.concat e) fun s pick => ?_
  unfold readEntry
  simp only [Proc.bind_assoc, Proc.pure_bind]
  refine Guided.bind_atomically (R := fun e => Trails x [e, ⟨.own c, s, s, pick⟩])
    (fun _ _ _ _ => .observed rfl) (fun _ e h => h.concat e) fun s1 pick1 => ?_
  refine Guided.bind_atomically
    (R := fun e => Trails x [e, ⟨.entry, s1, s1, pick1⟩, ⟨.own c, s, s, pick⟩])
    (fun _ _ _ _ => .observed rfl) (fun _ e h => h.concat e) fun s2 pick2 => ?_
  refine Guided.bind_atomically (R := fun e => Trails x
    [e, ⟨.entry, s2, s2, pick2⟩, ⟨.entry, s1, s1, pick1⟩, ⟨.own c, s, s, pick⟩])
    (fun _ _ _ _ => .observed rfl) (fun _ e h => h.concat e) fun s3 pick3 => ?_
  refine tellsAfter_announced (lasting_trails _ _) fun past h => ?_
  have hknows := fun (y : HubSection) hy => h.knows (y := y) ⟨.own c, s, s, pick⟩ hx hy (by simp)
  exact ⟨⟨_, hknows ⟨.entry, s3, s3, pick3⟩ (by simp), rfl⟩,
    ⟨_, hknows ⟨.entry, s2, s2, pick2⟩ (by simp), rfl⟩,
    _, hknows ⟨.entry, s1, s1, pick1⟩ (by simp), rfl⟩

theorem Hub.registerLocked_findsEntry (s : Hub) (c : ConnID) (pick : Bool) :
    FindsEntry c ⟨.mu, s, (s.registerLocked c).2, pick⟩ := by
  have hreg := s.registerLocked_spec c
  constructor
  · have hclient : (s.registerLocked c).2.clients[(s.conns c).agentID]? = some c := by
      rw [hreg.clients]
      exact Std.ExtTreeMap.getElem?_insert_self
    exact .inr hclient
  · obtain ⟨e, hagents, -⟩ := hreg.agents
    have hentry : (s.registerLocked c).2.agents[(s.conns c).agentID]?.isSome := by
      rw [hagents]
      exact Option.isSome_iff_exists.mpr ⟨e, Std.ExtTreeMap.getElem?_insert_self⟩
    exact hentry

theorem tellsAfter_register : TellsAfter P c messages Q (register c) := by
  unfold register
  refine Guided.mono (Q := fun _ => True) ?_ fun _ _ => trivial
  refine Guided.bind_atomically (R := fun e => Trails e []) (fun _ _ _ _ => .other .registered)
    (fun past e _ => trails_now e past) fun s pick => ?_
  exact tellsAfter_readEntry (s.registerLocked_findsEntry c pick)

theorem tellsAfter_joinChannel (name chanPub : String) :
    TellsAfter P c messages (Signed c []) (joinChannel P c name chanPub) := by
  have hlog : ∀ (kvs : Hub → List (String × String)) (r : Option ProtoError)
      (Q : List HubSection → Prop), TellsAfter P c messages Q (do logf "join" kvs; return r) :=
    fun kvs r _ => tellsAfter_untelling (Emits.bind (Act.logf _ _) fun _ => Emits.pure _)
  unfold joinChannel
  refine Guided.bind_atomically (R := fun e => Signed c [e])
    (fun _ _ _ _ => .other (.joined _ _)) (fun _ e h => h.concat e) fun s pick => ?_
  split
  · exact hlog _ _ _
  · exact hlog _ _ _
  · refine Guided.bind_atomically
      (R := fun e => Signed c [e, ⟨.mu, s, (s.joinLocked P c name chanPub).2, pick⟩])
      (fun _ _ _ _ => .observed rfl) (fun _ e h => h.concat e) fun s' pick' => ?_
    refine Guided.bind (tellsAfter_announced (lasting_signed _) fun past h => ?_)
      fun _ => hlog _ _ _
    exact .of_whole (h.knows List.mem_cons_self)

theorem Hub.deregisterLocked_found {s s' : Hub} {ptr : EntryPtr} {peers : List ConnID}
    (hd : s.deregisterLocked c = some (some (ptr, peers), s')) :
    s.clients[(s.conns c).agentID]? = some c ∧ s'.agents[(s.conns c).agentID]?.isSome ∧
      ptr = s'.pointTo (s.conns c).agentID := by
  unfold Hub.deregisterLocked at hd
  dsimp only at hd
  split at hd
  · simp at hd
  next hclient =>
    split at hd
    · simp at hd
    next a ha =>
      obtain ⟨hr, rfl⟩ := Prod.mk.inj (Option.some.inj hd)
      obtain ⟨rfl, -⟩ := Prod.mk.inj (Option.some.inj hr)
      refine ⟨not_not.mp hclient, ?_, rfl⟩
      exact Option.isSome_iff_exists.mpr ⟨_, Std.ExtTreeMap.getElem?_insert_self⟩

theorem tellsAfter_deregister : TellsAfter P c messages Q (deregister c) := by
  unfold deregister
  refine Guided.mono (Q := fun _ => True) ?_ fun _ _ => trivial
  refine tellsAfter_bind_untelling (Emits.modify fun _ _ => .dropped) (fun _ _ _ => trivial)
    fun _ => ?_
  refine Guided.bind_guarded (R := fun e => Trails e [])
    (fun _ _ _ _ _ _ hd => .other (.left hd)) (fun past e _ => trails_now e past)
    fun pick s left s' hd => ?_
  split
  · exact .pure _
  next ptr peers =>
    obtain ⟨hclient, hentry, rfl⟩ := Hub.deregisterLocked_found hd
    exact tellsAfter_readEntry (x := ⟨.mu, s, s', pick⟩) ⟨.inl hclient, hentry⟩

/-- The hello has been accepted. -/
def Checked (P : Platform) (f : Frame) (raw : Raw) (past : List HubSection) : Prop :=
  ∃ e ∈ past, e.label = .nonces ∧ (checkHello P f raw e.pre.clock e.pre.nonces).1 = none

theorem tellsAfter_welcome {f : Frame} {raw : Raw} {data : Bytes} (hdata : .text data ∈ messages)
    (hp : parseFrame data = some (f, raw)) (hop : frameOp f raw = "hello") :
    TellsAfter P c messages (Checked P f raw) (welcome P c f) := by
  unfold welcome ownConn
  refine Guided.bind_atomically (R := fun e past => Checked P f raw past ∧ e ∈ past)
    (fun _ _ _ _ => .observed rfl) ?_ fun s pick => ?_
  · rintro past e ⟨x, hx, hrest⟩
    exact ⟨⟨x, List.mem_append_left _ hx, hrest⟩, by simp⟩
  dsimp only
  split
  · exact tellsAfter_untelling (Act.reject (untelling_refuses _) _)
  next hname =>
    refine Guided.bind_atomically (R := fun e past => e.post = (e.pre.updConn c
      fun k => k.authenticated P f) → Signed c [] past) (fun past s' pick' hq => ?_) ?_
      fun s' pick' => ?_
    · obtain ⟨hchecked, hown⟩ := hq
      change Act c _ ⟨.own c, s', s'.updConn c fun k => k.authenticated P f, pick'⟩
      refine .wrote ?_
      refine .greeted f ⟨⟨data, raw, hdata, hp, hop, hchecked⟩, _, hown, rfl, fun hauth => ?_⟩
      by_contra hne
      exact hname ⟨hauth, hne⟩
    · intro past e _ hpost
      refine ⟨past, e, [], rfl, .inr ?_, by simp⟩
      rw [hpost, Hub.updConn_conns_self]
      rfl
    refine Guided.mono (Q := Signed c []) ?_ fun past h => h rfl
    refine Guided.bind tellsAfter_register fun _ => tellsAfter_untelling ?_
    refine Emits.bind (Act.sendFrame fun g hg => ?_) fun _ => Emits.pure _
    rw [← Reply.frame.inj hg]
    rfl

theorem tellsAfter_handleHello {f : Frame} {raw : Raw} {data : Bytes}
    (hdata : .text data ∈ messages) (hp : parseFrame data = some (f, raw))
    (hop : frameOp f raw = "hello") : TellsAfter P c messages Q (handleHello P c f raw) := by
  unfold handleHello ownConn
  refine Guided.mono (Q := fun _ => True) ?_ fun _ _ => trivial
  refine tellsAfter_bind_untelling (Act.setOwn (.traced f)) (fun _ _ _ => trivial) fun _ => ?_
  refine tellsAfter_bind_untelling (Act.logf _ _) (fun _ _ _ => trivial) fun _ => ?_
  refine tellsAfter_bind_untelling (Act.read rfl) (fun _ _ _ => trivial) fun k => ?_
  split
  · exact tellsAfter_untelling (Act.sendErr (untelling_refuses _) _)
  refine Guided.bind_atomically (R := fun e past => e ∈ past)
    (fun _ _ _ _ => .other (.checked f raw)) (fun past e _ => by simp) fun s pick => ?_
  split
  · exact tellsAfter_untelling (Act.reject (untelling_refuses _) _)
  next hnone => exact (tellsAfter_welcome hdata hp hop).mono fun past he => ⟨_, he, rfl, hnone⟩

theorem tellsAfter_handleJoin (f : Frame) :
    TellsAfter P c messages (Signed c []) (handleJoin P c f) := by
  unfold handleJoin
  split
  · exact tellsAfter_untelling (Act.sendErr (untelling_refuses _) _)
  refine Guided.bind (tellsAfter_joinChannel _ _) fun r => tellsAfter_untelling ?_
  split
  · exact Act.sendErr (untelling_refuses _) _
  · refine Emits.bind (Act.sendFrame fun g hg => ?_) fun _ => Emits.pure _
    rw [← Reply.frame.inj hg]
    rfl

theorem tellsAfter_handler {f : Frame} {raw : Raw} {data : Bytes} {handle : HubProc Unit}
    (hdata : .text data ∈ messages) (hp : parseFrame data = some (f, raw))
    (hQ : ∀ past, Q past → frameOp f raw ≠ "hello" → Signed c [] past)
    (hh : handler P c (frameOp f raw) f raw = some handle) : TellsAfter P c messages Q handle := by
  unfold handler at hh
  split at hh
  next hop => exact Option.some.inj hh ▸ tellsAfter_handleHello hdata hp hop
  next hop =>
    have hsigned : ∀ past, Q past → Signed c [] past := fun past hq => hQ past hq hop
    split at hh
    · exact Option.some.inj hh ▸ tellsAfter_handleWhois f
    split at hh
    · exact Option.some.inj hh ▸ tellsAfter_handlePresenceQuery f
    split at hh
    · exact Option.some.inj hh ▸ (tellsAfter_handleJoin f).mono hsigned
    split at hh
    · exact Option.some.inj hh ▸ tellsAfter_handleSend f raw
    split at hh
    · exact Option.some.inj hh ▸ tellsAfter_handleFlush
    split at hh
    · exact Option.some.inj hh ▸ tellsAfter_enroll .enroll
    split at hh
    · exact Option.some.inj hh ▸ tellsAfter_enroll .enrollCreate
    · simp at hh

theorem tellsAfter_dispatch {data : Bytes} (hdata : .text data ∈ messages) :
    TellsAfter P c messages Q (dispatch P c data) := by
  have hlog : ∀ op id code (Q : List HubSection → Prop),
      TellsAfter P c messages Q (logOp c op id code) :=
    fun _ _ _ _ => tellsAfter_untelling (Act.logf _ _)
  have hrefuse : ∀ code msg (Q : List HubSection → Prop),
      TellsAfter P c messages Q (sendErr c code msg) := fun code msg _ =>
    tellsAfter_untelling (Act.sendErr (untelling_refuses code) msg)
  unfold dispatch
  refine Guided.mono (Q := fun _ => True) ?_ fun _ _ => trivial
  refine tellsAfter_bind_untelling (Act.setOwn (.code "")) (fun _ _ _ => trivial) fun _ => ?_
  split
  · exact Guided.bind (hrefuse _ _ _) fun _ => hlog _ _ _ _
  next f raw hparse =>
    unfold dispatchFrame ownConn
    refine Guided.bind_atomically (R := fun e past =>
      (e.pre.conns c).authed = true → Signed c [] past) (fun _ _ _ _ => .observed rfl)
      (fun past e _ ha => ⟨past, e, [], rfl, .inl ha, by simp⟩) fun s pick => ?_
    dsimp only
    split
    · exact Guided.bind (hrefuse _ _ _) fun _ => hlog _ _ _ _
    next hop =>
      refine tellsAfter_bind_untelling (Act.does fun _ _ => .touched _)
        (fun past e h ha => lasting_signed _ past e (h ha)) fun _ => ?_
      split
      next handle hh =>
        refine Guided.bind (tellsAfter_handler hdata hparse (fun past h hne => h ?_) hh)
          fun _ => hlog _ _ _ _
        by_contra hauth
        exact hop ⟨hauth, hne⟩
      · exact Guided.bind (hrefuse _ _ _) fun _ => hlog _ _ _ _

theorem tellsAfter_readLoop {rest : List Message} (hrest : ∀ m ∈ rest, m ∈ messages) :
    TellsAfter P c messages Q (readLoop P c rest) := by
  refine Guided.mono (Q := fun _ => True) ?_ fun _ _ => trivial
  induction rest with
  | nil => exact .pure _
  | cons m rest ih =>
    have ih := ih fun m hm => hrest m (List.mem_cons_of_mem _ hm)
    unfold readLoop
    refine tellsAfter_bind_untelling (Act.read rfl) (fun _ _ _ => trivial) fun closed => ?_
    split
    · exact .pure _
    · cases m with
      | binary data =>
        exact Guided.bind (tellsAfter_untelling (Act.sendErr (untelling_refuses _) _)) fun _ => ih
      | text data =>
        dsimp only
        split
        · exact tellsAfter_untelling (Act.reject (untelling_refuses _) _)
        · exact Guided.bind (tellsAfter_dispatch (hrest _ List.mem_cons_self)) fun _ => ih

/-- Whatever messages arrive, the read loop tells only what it knows. -/
theorem serve_telling (remote : String) :
    TellsAfter P c messages (fun _ => True) (serve P c remote messages) :=
  Guided.bind (tellsAfter_untelling (Act.logf _ _)) fun _ =>
    Guided.bind (tellsAfter_readLoop fun _ hm => hm) fun _ =>
      Guided.bind tellsAfter_deregister fun _ => tellsAfter_untelling (Act.logf _ _)

end Programs

end Dap
