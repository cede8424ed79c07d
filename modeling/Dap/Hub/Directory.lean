import Dap.Hub.Telling

/-! The hub as a directory of public keys: whatever it tells of an agent in any run goes back to a
verified hello of that agent. -/
namespace Dap
open Proc

variable {P : Platform} {c d : ConnID} {messages : ConnID → List Message} {H H1 H2 : HubHistory}
  {h h' : Hub}

/-- The card is that of a hello said over one of the connections, and the id names its key. -/
def Vouched (P : Platform) (messages : ConnID → List Message) (H : HubHistory) (id : String)
    (k : Card) : Prop :=
  ∃ c f, Said P c (messages c) (H.own c) f ∧ id = helloAgentID P f.pubkey ∧ k = f.card

theorem Vouched.append {id : String} {k : Card} (hv : Vouched P messages H id k)
    (H' : HubHistory) : Vouched P messages (H ++ H') id k := by
  obtain ⟨c, f, hs, hid, hk⟩ := hv
  refine ⟨c, f, ?_, hid, hk⟩
  rw [History.own_append]
  exact hs.append _

/-! ### What the sections do to cards -/

theorem Hub.field_updConn (s : Hub) {f : Conn → Conn} {β : Type} {π : Conn → β}
    (hf : ∀ k, π (f k) = π k) (c d : ConnID) : π ((s.updConn c f).conns d) = π (s.conns d) := by
  by_cases hd : d = c
  · subst hd
    rw [s.updConn_conns_self]
    exact hf _
  · rw [s.updConn_conns_of_ne f hd]

/-- Who a connection says it is, and whether that has been verified. -/
def Conn.claim (k : Conn) : Bool × String × Card := (k.authed, k.agentID, k.card)

theorem Conn.claim_of_identity {k k' : Conn} (hk : k'.identity = k.identity) :
    k'.claim = k.claim := by
  unfold claim card
  have ha : k'.authed = _ := congrArg Identity.authed hk
  have hid : k'.agentID = _ := congrArg Identity.agentID hk
  have hpub : k'.pubkey = _ := congrArg Identity.pubkey hk
  have hx : k'.x25519 = _ := congrArg Identity.x25519 hk
  have hname : k'.name = _ := congrArg Identity.name hk
  rw [ha, hid, hpub, hx, hname]
  rfl

theorem Hub.registerLocked_field (s : Hub) {β : Type} {π : Conn → β}
    (hid : ∀ k k' : Conn, k'.identity = k.identity → π k' = π k)
    (hstage : ∀ (k : Conn) stage, π { k with stage := stage } = π k) (c d : ConnID) :
    π ((s.registerLocked c).2.conns d) = π (s.conns d) := by
  have hevict := hid _ _ ((Quiet.evictOther s c).identity d)
  unfold Hub.registerLocked
  dsimp only
  refine (Hub.field_updConn _ (f := fun k => { k with stage := .serving }) ?_ c d).trans hevict
  exact fun k => hstage k _

/-- Critical sections change no more of who a connection is than its stage. -/
theorem Task.field {β : Type} {π : Conn → β}
    (hid : ∀ k k' : Conn, k'.identity = k.identity → π k' = π k)
    (hstage : ∀ (k : Conn) stage, π { k with stage := stage } = π k) {e : HubSection}
    (ht : Task P c e) (d : ConnID) : π (e.post.conns d) = π (e.pre.conns d) := by
  cases ht with
  | @registered s pick => exact s.registerLocked_field hid hstage c d
  | @touched s pick id =>
    change π ((s.touchLastSeenLocked id).conns d) = _
    rw [s.touchLastSeenLocked_frame]
  | @joined s pick name chanPub =>
    change π ((s.joinLocked P c name chanPub).2.conns d) = _
    rw [Hub.joinLocked_frame]
  | @left s s' pick r hd =>
    change π (s'.conns d) = _
    rw [Hub.deregisterLocked_conns hd]
    exact s.field_updConn (f := fun k => { k with stage := .gone }) (fun k => hstage k _) c d
  | _ => rfl

theorem Hub.registerLocked_claim (s : Hub) (c d : ConnID) :
    ((s.registerLocked c).2.conns d).claim = (s.conns d).claim :=
  s.registerLocked_field (fun _ _ => Conn.claim_of_identity) (fun _ _ => rfl) c d

theorem Task.claim {e : HubSection} (ht : Task P c e) (d : ConnID) :
    (e.post.conns d).claim = (e.pre.conns d).claim :=
  ht.field (fun _ _ => Conn.claim_of_identity) (fun _ _ => rfl) d

namespace Hub

theorem registerLocked_agents (h : Hub) (c : ConnID) :
    ∃ a : AgentEntry, (h.registerLocked c).2.agents = h.agents.insert (h.conns c).agentID a ∧
      a.card = (h.conns c).card := by
  have hq := Quiet.evictOther h c
  have hid : ((h.evictOther c).conns c).agentID = (h.conns c).agentID :=
    congrArg Identity.agentID (hq.identity c)
  refine ⟨(h.evictOther c).freshEntry c, ?_, ?_⟩
  · change (h.evictOther c).agents.insert ((h.evictOther c).conns c).agentID _ = _
    rw [hq.agents, hid]
    rfl
  · exact congrArg (fun k : Bool × String × Card => k.2.2)
      (Conn.claim_of_identity (hq.identity c))

theorem touchLastSeenLocked_card (h : Hub) (id : String) {r : String} {a : AgentEntry}
    (ha : (h.touchLastSeenLocked id).agents[r]? = some a) :
    ∃ a', h.agents[r]? = some a' ∧ a'.card = a.card := by
  unfold touchLastSeenLocked at ha
  split at ha
  next e he =>
    have ha' := (GoMap.getElem?_insert_ite h.agents id r _).symm.trans ha
    split at ha'
    next hid =>
      subst hid
      obtain rfl := Option.some.inj ha'
      exact ⟨e, he, rfl⟩
    next => exact ⟨a, ha', rfl⟩
  next => exact ⟨a, ha, rfl⟩

end Hub

/-- An entry of the registry was there before, or is that of a connection that registers. -/
theorem Step.entry {who : Option ConnID} (hs : Step P who h h') (hi : Coherent P h) {id : String}
    {a : AgentEntry} (ha : h'.agents[id]? = some a) :
    (∃ a', h.agents[id]? = some a' ∧ a'.card = a.card) ∨
      ∃ c, (h.conns c).authed = true ∧ (h.conns c).agentID = id ∧ (h.conns c).card = a.card := by
  cases hs with
  | quiet hq => exact .inl ⟨a, hq.agents ▸ ha, rfl⟩
  | registered c hs =>
    obtain ⟨a', hagents, hcard⟩ := h.registerLocked_agents c
    rw [hagents, GoMap.getElem?_insert_ite] at ha
    split at ha
    next hid =>
      obtain rfl := Option.some.inj ha
      exact .inr ⟨c, (hi.sound c).late (.inl hs), hid, hcard.symm⟩
    next => exact .inl ⟨a, ha, rfl⟩
  | touched c hs => exact .inl (h.touchLastSeenLocked_card _ ha)
  | joined c name chanPub hs =>
    rw [Hub.joinLocked_frame] at ha
    exact .inl ⟨a, ha, rfl⟩
  | enqueued c agentID f hs =>
    rw [Hub.enqueueLocked_frame] at ha
    exact .inl ⟨a, ha, rfl⟩
  | left c r hs hc hd =>
    obtain ⟨h1, rfl, ⟨-, rfl⟩ | ⟨-, e, he, rfl⟩⟩ := Hub.deregisterLocked_spec hd
    · exact .inl ⟨a, ha, rfl⟩
    · have ha' := (GoMap.getElem?_insert_ite h.agents _ id _).symm.trans ha
      split at ha'
      next hid =>
        subst hid
        obtain rfl := Option.some.inj ha'
        exact .inl ⟨e, he, rfl⟩
      next => exact .inl ⟨a, ha', rfl⟩
  | evicted id' =>
    rcases h.adminEvictLocked_spec id' with heq | ⟨-, hagents, -, -⟩
    · rw [heq] at ha
      exact .inl ⟨a, ha, rfl⟩
    · rw [hagents, GoMap.getElem?_erase_ite] at ha
      split at ha
      · cases ha
      · exact .inl ⟨a, ha, rfl⟩
  | _ => exact .inl ⟨a, ha, rfl⟩

/-! ### Pointers -/

/-- The pointer leads to an entry, in the registry or taken out of it. -/
def Hub.Leads (h : Hub) (p : EntryPtr) : Prop :=
  p.evictions < (h.evicted[p.agentID]?.getD []).length ∨
    p.evictions = (h.evicted[p.agentID]?.getD []).length ∧ h.agents[p.agentID]?.isSome

theorem Hub.Leads.deref {p : EntryPtr} (hp : h.Leads p) :
    h.deref p ∈ h.evicted[p.agentID]?.getD [] ∨ h.agents[p.agentID]? = some (h.deref p) := by
  unfold Hub.deref
  rcases hp with hlt | ⟨heq, hsome⟩
  · rw [List.getElem?_eq_getElem hlt, Option.getD_some]
    exact .inl (List.getElem_mem hlt)
  · obtain ⟨a, ha⟩ := Option.isSome_iff_exists.mp hsome
    rw [List.getElem?_eq_none heq.ge, ha]
    exact .inr rfl

/-- An eviction puts the entry aside. -/
theorem Hub.adminEvictLocked_aside (h : Hub) (id : String) : (h.adminEvictLocked id).2 = h ∨
    ∃ e, h.agents[id]? = some e ∧ (h.adminEvictLocked id).2.agents = h.agents.erase id ∧
      (h.adminEvictLocked id).2.evicted =
        h.evicted.insert id (h.evicted[id]?.getD [] ++ [e]) := by
  unfold adminEvictLocked
  split
  · exact .inl rfl
  next e he =>
    split
    · exact .inl rfl
    · right
      dsimp only
      split
      · split <;> exact ⟨e, he, rfl, rfl⟩
      · exact ⟨e, he, rfl, rfl⟩

theorem Step.aside {who : Option ConnID} (hs : Step P who h h') :
    h'.evicted = h.evicted ∧ (∀ id : String, h.agents[id]?.isSome → h'.agents[id]?.isSome) ∨
      ∃ (id : String) (e : AgentEntry), h.agents[id]? = some e ∧ h'.agents = h.agents.erase id ∧
        h'.evicted = h.evicted.insert id (h.evicted[id]?.getD [] ++ [e]) := by
  cases hs with
  | quiet hq => exact .inl ⟨hq.evicted, fun id hid => by rwa [hq.agents]⟩
  | registered c hs =>
    have hreg := h.registerLocked_spec c
    obtain ⟨e, hagents, -⟩ := hreg.agents
    exact .inl ⟨hreg.evicted, fun id hid => hagents ▸ GoMap.isSome_insert hid _ _⟩
  | touched c hs =>
    refine .inl ⟨by rw [h.touchLastSeenLocked_frame], fun id hid => ?_⟩
    rwa [h.getElem?_touchLastSeenLocked, Option.isSome_map]
  | joined c name chanPub hs =>
    rw [Hub.joinLocked_frame]
    exact .inl ⟨rfl, fun _ hid => hid⟩
  | enqueued c agentID f hs =>
    rw [Hub.enqueueLocked_frame]
    exact .inl ⟨rfl, fun _ hid => hid⟩
  | left c r hs hc hd =>
    obtain ⟨h1, rfl, ⟨-, rfl⟩ | ⟨-, e, -, rfl⟩⟩ := Hub.deregisterLocked_spec hd
    · exact .inl ⟨rfl, fun _ hid => hid⟩
    · exact .inl ⟨rfl, fun _ hid => GoMap.isSome_insert hid _ _⟩
  | evicted id =>
    rcases h.adminEvictLocked_aside id with heq | ⟨e, he⟩
    · rw [heq]
      exact .inl ⟨rfl, fun _ hid => hid⟩
    · exact .inr ⟨id, e, he⟩
  | _ => exact .inl ⟨rfl, fun _ hid => hid⟩

theorem Step.leads {who : Option ConnID} (hs : Step P who h h') {p : EntryPtr} (hp : h.Leads p) :
    h'.Leads p := by
  rcases hs.aside with ⟨hev, hagents⟩ | ⟨id, e, he, hagents, hev⟩
  · exact hp.imp (by rw [hev]; exact id) fun hp => ⟨by rw [hev]; exact hp.1, hagents _ hp.2⟩
  · unfold Hub.Leads at hp ⊢
    rw [hagents, hev, GoMap.getElem?_insert_ite, GoMap.getElem?_erase_ite]
    split
    next heq =>
      subst heq
      rw [Option.getD_some, List.length_append, List.length_singleton]
      omega
    next => exact hp

/-- What is put aside was in the registry. -/
theorem Step.buried {who : Option ConnID} (hs : Step P who h h') {r : String} {a : AgentEntry}
    (ha : a ∈ h'.evicted[r]?.getD []) :
    a ∈ h.evicted[r]?.getD [] ∨ h.agents[r]? = some a := by
  rcases hs.aside with ⟨hev, -⟩ | ⟨id, e, he, -, hev⟩
  · exact .inl (hev ▸ ha)
  · rw [hev, GoMap.getElem?_insert_ite] at ha
    split at ha
    next heq =>
      subst heq
      rcases List.mem_append.mp ha with ha | ha
      · exact .inl ha
      · exact .inr (List.mem_singleton.mp ha ▸ he)
    next => exact .inl ha

theorem Ambient.claim (ha : Ambient h h') (hauth : (h'.conns c).authed = true) :
    (h'.conns c).claim = (h.conns c).claim := by
  cases ha with
  | quiet hq hsend => exact Conn.claim_of_identity (hq.identity c)
  | opened d auth boundName hd =>
    unfold Hub.openConn at hauth ⊢
    by_cases hcd : c = d
    · subst hcd
      rw [h.updConn_conns_self] at hauth
      cases hauth
    · rw [h.updConn_conns_of_ne _ hcd]
  | evicted id =>
    rcases h.adminEvictLocked_spec id with heq | ⟨-, -, -, hconns⟩
    · rw [heq]
    · rw [hconns]
  | aclSet name allowed => rfl

/-! ### Along a run -/

/-- Cards of authenticated connections, of the registry with what was taken out of it, and of queued
frames are vouched for. -/
structure Listed (P : Platform) (messages : ConnID → List Message) (H : HubHistory) (h : Hub) :
    Prop where
  said : ∀ c, (h.conns c).authed = true → ∃ f, Said P c (messages c) (H.own c) f ∧
    (h.conns c).agentID = helloAgentID P f.pubkey ∧ (h.conns c).card = f.card
  entry : ∀ (id : String) a, h.agents[id]? = some a → Vouched P messages H id a.card
  buried : ∀ (id : String) a, a ∈ h.evicted[id]?.getD [] → Vouched P messages H id a.card
  told : ∀ d f, .frame f ∈ (h.conns d).send → f.whole →
    ∀ t ∈ f.cards, Vouched P messages H t.1 t.2
  pieced : ∀ d f, .frame f ∈ (h.conns d).send →
    ∀ t ∈ f.cards, Pieced (Vouched P messages H t.1) t.2

/-- What guides the read loops guides the last section of a run. -/
theorem HubRun.last_obeys {G : List HubSection → HubSection → Prop} {e : HubSection}
    (hG : ∀ remote, Guided G (fun _ => True) (serve P c remote (messages c)))
    (hrun : HubRun P messages (H ++ [(some c, e)]) h) : G (H.own c) e := by
  have hown : History.own (H ++ [(some c, e)]) c = H.own c ++ [e] := by
    rw [History.own_append, History.own_cons_self, History.own_nil]
  have hf := hrun.follows c (by rw [hown]; simp)
  rw [hown] at hf
  obtain ⟨t', ht, hobeys⟩ := hf.of_triple fun remote => (hG remote).obeys trivial
  exact hobeys.initial ht (H.own c) e [] rfl

/-- What no step falsifies holds from the end of a section on. -/
theorem HubRun.holds_after {I : Hub → Prop} {m : Option ConnID × HubSection}
    (hrun : HubRun P messages (H1 ++ m :: H2) h)
    (hI : ∀ who s s', Reachable P s → Step P who s s' → I s → I s') (hm : I m.2.post) :
    ∀ m' ∈ H2, I m'.2.pre := by
  obtain ⟨who, hs⟩ := hrun.step (List.mem_append_right _ List.mem_cons_self)
  have hpost := hrun.of_append.reachable.step hs
  obtain ⟨h0, -, -, hl⟩ := hrun.start
  obtain ⟨s, -, hl⟩ := hl.of_append
  obtain ⟨-, hrest⟩ := hl.of_cons
  obtain ⟨-, hall⟩ := hrest.invariant (I := fun s => Reachable P s ∧ I s) ⟨hpost, hm⟩
    fun m' hm' hpre => by
      obtain ⟨who', hs'⟩ := hrun.step (List.mem_append_right _ (List.mem_cons_of_mem _ hm'))
      exact ⟨hpre.1.step hs', hI who' _ _ hpre.1 hs' hpre.2⟩
  exact fun m' hm' => (hall m' hm').2

/-- Whoever speaks for an agent at the end of a section speaks for it from then on. -/
theorem HubRun.speaksFor_after {m : Option ConnID × HubSection}
    (hrun : HubRun P messages (H1 ++ m :: H2) h) {id pub : String}
    (hd : m.2.post.SpeaksFor d id pub) : ∀ m' ∈ H2, m'.2.pre.SpeaksFor d id pub :=
  hrun.holds_after (fun _ _ _ hr hs => hs.speaksFor (.reachable hr)) hd

theorem HubRun.vouched_of_knows (hrun : HubRun P messages H h)
    (hprev : ∀ H1 m H2, H = H1 ++ m :: H2 → Listed P messages H1 m.2.pre) {id : String} {k : Card}
    (hk : Knows c (H.own c) id k) : Vouched P messages H id k := by
  cases hk with
  | @registry e a he ha hcard =>
    obtain ⟨K1, K2, rfl⟩ := List.append_of_mem (History.mem_own.mp he)
    exact hcard ▸ ((hprev K1 _ K2 rfl).entry id a ha).append _
  | @itself u v x y own hp hx hy hcard hown hid =>
    obtain ⟨K1, K2, rfl, -, hK2⟩ := History.split_of_own hp
    have hmem : (some c, x) ∈ K1 ++ (some c, x) :: K2 := by simp
    obtain ⟨hr, hs⟩ := hrun.own_step hmem
    have hpost : (x.post.conns c).authed = true := by
      rcases hx with hx | hx
      · exact (hs.speaksFor (.reachable hr) ⟨hx, rfl, rfl⟩).1
      · exact hx
    have hspeaks := hrun.speaksFor_after (m := (some c, x)) ⟨hpost, rfl, rfl⟩
    rw [← hK2] at hy hown
    have hyK := History.mem_own.mp hy
    have hauth := hspeaks _ hyK
    obtain ⟨L1, L2, rfl⟩ := List.append_of_mem hyK
    have hlisted := hprev (K1 ++ (some c, x) :: L1) (some c, y) L2 (by simp)
    obtain ⟨f, hsaid, hagent, hfcard⟩ := hlisted.said c hauth.1
    have hsame : (own.pre.conns c).agentID = (y.pre.conns c).agentID :=
      (hspeaks _ (History.mem_own.mp hown)).2.1.trans hauth.2.1.symm
    have hv : Vouched P messages (K1 ++ (some c, x) :: L1) id k :=
      ⟨c, f, hsaid, by rw [← hid, hsame, hagent], by rw [← hcard, hfcard]⟩
    have happ := hv.append ((some c, y) :: L2)
    rwa [List.append_assoc, List.cons_append] at happ
  | @pointer u v x y own hp hx hy hcard hown hid =>
    obtain ⟨K1, K2, rfl, -, hK2⟩ := History.split_of_own hp
    have hmem : (some c, x) ∈ K1 ++ (some c, x) :: K2 := by simp
    obtain ⟨hr, hs⟩ := hrun.own_step hmem
    have hspeaks : ∃ pub, x.post.SpeaksFor c (x.pre.conns c).agentID pub := by
      rcases hx.client with hclient | hclient
      · exact ⟨_, hs.speaksFor (.reachable hr) ((Coherent.reachable hr).speaksFor hclient)⟩
      · exact ⟨_, (Coherent.reachable (hr.step hs)).speaksFor hclient⟩
    obtain ⟨pub, hpost⟩ := hspeaks
    rw [← hK2] at hy hown
    have hsame := (hrun.speaksFor_after (m := (some c, x)) hpost _ (History.mem_own.mp hown)).2.1
    have hleads := hrun.holds_after (m := (some c, x))
      (I := fun s => s.Leads (x.post.pointTo (x.pre.conns c).agentID))
      (fun _ _ _ _ hs' => hs'.leads) (.inr ⟨rfl, hx.entry⟩) _ (History.mem_own.mp hy)
    obtain ⟨L1, L2, rfl⟩ := List.append_of_mem (History.mem_own.mp hy)
    have hlisted := hprev (K1 ++ (some c, x) :: L1) (some c, y) L2 (by simp)
    have hv : Vouched P messages (K1 ++ (some c, x) :: L1) id k := by
      rw [← hid, hsame, ← hcard]
      rcases hleads.deref with ha | ha
      · exact hlisted.buried _ _ ha
      · exact hlisted.entry _ _ ha
    have happ := hv.append ((some c, y) :: L2)
    rwa [List.append_assoc, List.cons_append] at happ

theorem HubRun.step_listed {m : Option ConnID × HubSection}
    (hrun : HubRun P messages (H ++ [m]) h)
    (hprev : ∀ H1 m' H2, H ++ [m] = H1 ++ m' :: H2 → Listed P messages H1 m'.2.pre) :
    Listed P messages (H ++ [m]) m.2.post := by
  have hpre : Listed P messages H m.2.pre := hprev H m [] rfl
  have hbefore := hrun.of_concat.1
  have hi : Coherent P m.2.pre := .reachable hbefore.reachable
  obtain ⟨who, hstep⟩ := hrun.step (List.mem_append_right _ (List.mem_singleton_self m))
  have hentry : ∀ (id : String) a, m.2.post.agents[id]? = some a →
      Vouched P messages (H ++ [m]) id a.card := by
    intro id a ha
    rcases hstep.entry hi ha with ⟨a', ha', hcard⟩ | ⟨c, hauth, hid, hcard⟩
    · exact hcard ▸ (hpre.entry id a' ha').append _
    · obtain ⟨f, hs, hagent, hfcard⟩ := hpre.said c hauth
      exact Vouched.append ⟨c, f, hs, hid ▸ hagent, hcard ▸ hfcard⟩ _
  have hburied : ∀ (id : String) a, a ∈ m.2.post.evicted[id]?.getD [] →
      Vouched P messages (H ++ [m]) id a.card := by
    intro id a ha
    rcases hstep.buried ha with ha | ha
    · exact (hpre.buried id a ha).append _
    · exact (hpre.entry id a ha).append _
  have holdtold : ∀ d f, .frame f ∈ (m.2.pre.conns d).send → f.whole →
      ∀ t ∈ f.cards, Vouched P messages (H ++ [m]) t.1 t.2 :=
    fun d f hf hw t ht => (hpre.told d f hf hw t ht).append _
  have holdpieced : ∀ d f, .frame f ∈ (m.2.pre.conns d).send →
      ∀ t ∈ f.cards, Pieced (Vouched P messages (H ++ [m]) t.1) t.2 :=
    fun d f hf t ht => (hpre.pieced d f hf t ht).mono fun _ hv => hv.append _
  -- a claim that stays is backed by the hello it was backed by
  have hkept : ∀ c, (m.2.post.conns c).claim = (m.2.pre.conns c).claim →
      (m.2.post.conns c).authed = true → ∃ f, Said P c (messages c) ((H ++ [m]).own c) f ∧
        (m.2.post.conns c).agentID = helloAgentID P f.pubkey ∧
          (m.2.post.conns c).card = f.card := by
    intro c hclaim hauth
    obtain ⟨ha, hrest⟩ := Prod.mk.inj hclaim
    obtain ⟨hid, hcard⟩ := Prod.mk.inj hrest
    obtain ⟨f, hs, hagent, hfcard⟩ := hpre.said c (ha ▸ hauth)
    refine ⟨f, ?_, hid.trans hagent, hcard.trans hfcard⟩
    rw [History.own_append]
    exact hs.append _
  obtain ⟨_ | c, e⟩ := m
  · have hamb := hrun.ambient e (List.mem_append_right _ (List.mem_singleton_self _))
    exact ⟨fun c hauth => hkept c (hamb.claim hauth) hauth, hentry, hburied,
      fun d f hf => holdtold d f (hamb.send hf), fun d f hf => holdpieced d f (hamb.send hf)⟩
  · have hact := hrun.last_obeys serve_telling
    have hqueued : ∀ d f, .frame f ∈ (e.post.conns d).send →
        .frame f ∈ (e.pre.conns d).send ∨ Grounded c (H.own c) f := by
      intro d f hf
      refine (hact.send (fun w hw k => ?_) (fun _ ht => ht) hf).imp_right fun hs => hs f rfl
      cases hw with
      | code code => rfl
      | traced f => exact (OwnWrite.traced f).send k
      | greeted f hf => rfl
    have hprev' : ∀ H1 m' H2, H = H1 ++ m' :: H2 → Listed P messages H1 m'.2.pre := by
      rintro H1 m' H2 rfl
      exact hprev H1 m' (H2 ++ [(some c, e)]) (by simp)
    have hmail : ∀ f, (∃ x ∈ H.own c, ∃ r : String, f ∈ x.pre.mailbox[r]?.getD []) →
        f.cards = [] := by
      rintro f ⟨x, hx, r, hmem⟩
      obtain ⟨K1, K2, rfl⟩ := List.append_of_mem (History.mem_own.mp hx)
      cases hq : x.pre.mailbox[r]? with
      | none => simp [hq] at hmem
      | some q =>
        rw [hq, Option.getD_some] at hmem
        have hop := hbefore.of_append.mail_op hq hmem
        simp [Frame.cards, hop]
    have hvouched : ∀ id k, Knows c (H.own c) id k → Vouched P messages (H ++ [(some c, e)]) id k :=
      fun id k hk => (hbefore.vouched_of_knows hprev' hk).append _
    refine ⟨fun d hauth => ?_, hentry, hburied, fun d f hf hw t ht => ?_, fun d f hf t ht => ?_⟩
    · refine hact.keeps (c := d) (φ := fun k => k.authed = true → ∃ f,
        Said P d (messages d) ((H ++ [(some c, e)]).own d) f ∧
          k.agentID = helloAgentID P f.pubkey ∧ k.card = f.card) ?_ ?_ ?_ ?_ hauth
      · intro k k' hk hφ hauth
        rw [hk] at hauth ⊢
        exact hφ hauth
      · rintro rfl w hw k hφ hauth
        cases hw with
        | code code => exact hφ hauth
        | traced f =>
          unfold Conn.traced at hauth ⊢
          split
          next heq =>
            rw [heq] at hauth
            exact hφ hauth
          next heq =>
            rw [heq] at hauth
            exact hφ hauth
        | greeted f hf =>
          refine ⟨f, ?_, rfl, rfl⟩
          rw [History.own_append]
          exact hf.append _
      · intro e' ht hφ hauth
        obtain ⟨ha, hrest⟩ := Prod.mk.inj (Task.claim ht d)
        obtain ⟨hid, hcard⟩ := Prod.mk.inj hrest
        rw [hid, hcard]
        exact hφ (ha ▸ hauth)
      · intro hauth
        obtain ⟨f, hs, hrest⟩ := hpre.said d hauth
        refine ⟨f, ?_, hrest⟩
        rw [History.own_append]
        exact hs.append _
    · rcases hqueued d f hf with hf' | hm | ⟨hknows, -⟩
      · exact holdtold d f hf' hw t ht
      · exact absurd (hmail f hm ▸ ht) List.not_mem_nil
      · exact hvouched _ _ (hknows hw t ht)
    · rcases hqueued d f hf with hf' | hm | ⟨-, hknows⟩
      · exact holdpieced d f hf' t ht
      · exact absurd (hmail f hm ▸ ht) List.not_mem_nil
      · exact (hknows t ht).mono (hvouched _)

theorem HubRun.listed (hrun : HubRun P messages H h) : Listed P messages H h := by
  induction hn : H.length using Nat.strongRecOn generalizing H h with
  | ind n ih =>
    rcases List.eq_nil_or_concat H with rfl | ⟨H', m, rfl⟩
    · obtain ⟨h0, hf, -, hl⟩ := hrun.start
      obtain rfl := hl.of_nil
      have hsend : ∀ d r, r ∉ (h0.conns d).send := by
        intro d r hmem
        rw [hf.conns d] at hmem
        cases hmem
      refine ⟨fun c hauth => ?_, fun id a ha => ?_, fun id a ha => ?_,
        fun d f hmem => absurd hmem (hsend d _), fun d f hmem => absurd hmem (hsend d _)⟩
      · rw [hf.conns c] at hauth
        cases hauth
      · simp [hf.agents] at ha
      · simp [hf.evicted] at ha
    · rw [List.concat_eq_append] at hrun hn ⊢
      rw [hrun.of_concat.2]
      refine hrun.step_listed fun H1 m' H2 hH => ?_
      rw [hH] at hrun hn
      refine ih H1.length ?_ hrun.of_append rfl
      rw [← hn, List.length_append, List.length_cons]
      omega

/-! ### Whoever is connected -/

/-- The registry shows of every connected agent what its connection says. -/
def Hub.Current (h : Hub) : Prop :=
  ∀ (id : String) c, h.clients[id]? = some c →
    ∃ a, h.agents[id]? = some a ∧ a.card = (h.conns c).card

theorem Hub.Current.of_kept (hc : h.Current)
    (hclients : ∀ (id : String) c, h'.clients[id]? = some c → h.clients[id]? = some c)
    (hagents : ∀ (id : String) c a, h.clients[id]? = some c → h.agents[id]? = some a →
      ∃ a', h'.agents[id]? = some a' ∧ a'.card = a.card)
    (hcards : ∀ (id : String) c, h.clients[id]? = some c →
      (h'.conns c).card = (h.conns c).card) : h'.Current := by
  intro id c hid
  have hold := hclients id c hid
  obtain ⟨a, ha, hcard⟩ := hc id c hold
  obtain ⟨a', ha', hcard'⟩ := hagents id c a hold ha
  exact ⟨a', ha', by rw [hcard', hcard, hcards id c hold]⟩

/-- Only cards of connections that nobody is connected with change. -/
theorem Hub.Current.updConn (hc : h.Current) {f : Conn → Conn}
    (hd : ∀ id : String, h.clients[id]? ≠ some d) : (h.updConn d f).Current := by
  refine hc.of_kept (fun _ _ hid => hid) (fun _ _ a _ ha => ⟨a, ha, rfl⟩) fun id c hid => ?_
  rw [h.updConn_conns_of_ne]
  rintro rfl
  exact hd id hid

theorem Step.current {who : Option ConnID} (hs : Step P who h h') (hi : Coherent P h)
    (hc : h.Current) : h'.Current := by
  have hserving : ∀ {c}, (h.conns c).stage ≠ .serving → ∀ id : String, h.clients[id]? ≠ some c :=
    fun hst id hid => hst (hi.client id _ hid).1
  have hstay : ∀ (id : String) (c : ConnID) a, h.clients[id]? = some c → h.agents[id]? = some a →
      ∃ a', h.agents[id]? = some a' ∧ a'.card = a.card := fun _ _ a _ ha => ⟨a, ha, rfl⟩
  have hcard : ∀ {k k' : Conn}, k'.claim = k.claim → k'.card = k.card := fun hk =>
    congrArg (fun k : Bool × String × Card => k.2.2) hk
  cases hs with
  | quiet hq =>
    refine hc.of_kept (fun _ _ hid => hq.clients ▸ hid) (fun _ _ a _ ha => ⟨a, ?_, rfl⟩)
      fun _ c _ => hcard (Conn.claim_of_identity (hq.identity c))
    rw [hq.agents]
    exact ha
  | opened c auth boundName hs => exact hc.updConn (hserving (by rw [hs]; exact Stage.noConfusion))
  | greeted c f raw hs hv hn => exact hc.updConn (hserving (by rw [hs]; exact Stage.noConfusion))
  | registered c hs =>
    obtain ⟨a, hagents, ha⟩ := h.registerLocked_agents c
    have hclients : (h.registerLocked c).2.clients = h.clients.insert (h.conns c).agentID c :=
      (h.registerLocked_spec c).clients
    intro id d hid
    rw [hclients, GoMap.getElem?_insert_ite] at hid
    rw [hagents, GoMap.getElem?_insert_ite, hcard (h.registerLocked_claim c d)]
    split at hid
    next heq =>
      obtain rfl := Option.some.inj hid
      exact ⟨a, if_pos heq, ha⟩
    next hne =>
      obtain ⟨a', ha', hcard'⟩ := hc id d hid
      exact ⟨a', (if_neg hne).trans ha', hcard'⟩
  | touched c hs =>
    have hframe := h.touchLastSeenLocked_frame (h.conns c).agentID
    refine hc.of_kept (fun id d hid => ?_) (fun id _ a _ ha => ?_) fun id d _ => ?_
    · rw [hframe] at hid
      exact hid
    · unfold Hub.touchLastSeenLocked
      split
      next e he =>
        by_cases hid : (h.conns c).agentID = id
        · subst hid
          refine ⟨_, (GoMap.getElem?_insert_ite ..).trans (if_pos rfl), ?_⟩
          rw [Option.some.inj (he.symm.trans ha)]
          rfl
        · exact ⟨a, (GoMap.getElem?_insert_ite ..).trans ((if_neg hid).trans ha), rfl⟩
      next => exact ⟨a, ha, rfl⟩
    · rw [hframe]
  | joined c name chanPub hs =>
    rw [Hub.joinLocked_frame]
    exact hc.of_kept (fun _ _ hid => hid) hstay fun _ _ _ => rfl
  | enqueued c agentID f hs =>
    rw [Hub.enqueueLocked_frame]
    exact hc.of_kept (fun _ _ hid => hid) hstay fun _ _ _ => rfl
  | left c r hs hclosed hd =>
    have hgone : ∀ d, ((h.updConn c fun k => { k with stage := .gone }).conns d).card =
        (h.conns d).card :=
      h.field_updConn (f := fun k => { k with stage := .gone }) (fun _ => rfl) c
    obtain ⟨h1, rfl, ⟨-, rfl⟩ | ⟨-, e, he, rfl⟩⟩ := Hub.deregisterLocked_spec hd
    · exact hc.of_kept (fun _ _ hid => hid) hstay fun _ d _ => hgone d
    · refine hc.of_kept (fun id d hid => ?_) (fun id _ a _ ha => ?_) fun _ d _ => hgone d
      · have hid' := (GoMap.getElem?_erase_ite h.clients _ id).symm.trans hid
        split at hid'
        · cases hid'
        · exact hid'
      · by_cases hid : (h.who c).agentID = id
        · subst hid
          refine ⟨_, (GoMap.getElem?_insert_ite ..).trans (if_pos rfl), ?_⟩
          rw [Option.some.inj (he.symm.trans ha)]
          rfl
        · exact ⟨a, (GoMap.getElem?_insert_ite ..).trans ((if_neg hid).trans ha), rfl⟩
  | evicted id' =>
    rcases h.adminEvictLocked_spec id' with heq | ⟨hnone, hagents, hclients, hconns⟩
    · rwa [heq]
    · refine hc.of_kept (fun _ _ hid => hclients ▸ hid) (fun id c a hid ha => ⟨a, ?_, rfl⟩)
        fun _ c _ => by rw [hconns]
      rw [hagents, GoMap.getElem?_erase_ite]
      refine (if_neg ?_).trans ha
      rintro rfl
      rw [hnone] at hid
      cases hid
  | _ => exact hc.of_kept (fun _ _ hid => hid) hstay fun _ _ _ => rfl

theorem Reachable.current (hr : Reachable P h) : h.Current := by
  induction hr with
  | fresh hf =>
    intro id c hid
    simp [hf.clients] at hid
  | step hr hs ih => exact hs.current (.reachable hr) ih

/-- A query of an agent about itself. -/
def selfWhois : Frame where
  op := "whois"
  agentID := helloAgentID lenientPlatform (sampleHello 0).pubkey

end Dap
