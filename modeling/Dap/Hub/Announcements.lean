import Dap.Hub.Presence

/-! Presence over whole runs of the hub: whom an agent's coming and going is told to, and when the
last that was told of it is what the registry says (`hub/relay.go`, `hub/presence.go`). -/
namespace Dap
open Proc

variable {P : Platform} {c d p : ConnID} {id : String} {b : Bool}

/-! ### Whom an announcement reaches -/

/-- The connection belongs to another agent that shares a channel with this one. -/
def Hub.Hears (h : Hub) (p : ConnID) (id : String) : Prop :=
  ∃ (member name : String) (ch : Channel), h.clients[member]? = some p ∧ member ≠ id ∧
    h.channels[name]? = some ch ∧ Hub.isMember ch id = true ∧ member ∈ ch.members

theorem Hub.mem_presencePeersLocked (h : Hub) :
    p ∈ h.presencePeersLocked id ↔ h.Hears p id := by
  unfold Hub.presencePeersLocked
  rw [List.mem_dedup, List.mem_flatMap]
  constructor
  · rintro ⟨⟨name, ch⟩, hch, hp⟩
    dsimp only at hp
    split at hp
    next hmember =>
      obtain ⟨member, hmem, hmap⟩ := List.mem_filterMap.mp hp
      split at hmap
      next hne =>
        exact ⟨member, name, ch, hmap, hne, Std.ExtTreeMap.mem_toList_iff_getElem?_eq_some.mp hch,
          hmember, Std.ExtTreeMap.mem_keys.mp hmem⟩
      next => simp at hmap
    next => simp at hp
  · rintro ⟨member, name, ch, hclient, hne, hch, hmember, hmem⟩
    refine ⟨(name, ch), Std.ExtTreeMap.mem_toList_iff_getElem?_eq_some.mpr hch, ?_⟩
    dsimp only
    rw [if_pos hmember, List.mem_filterMap]
    exact ⟨member, Std.ExtTreeMap.mem_keys.mpr hmem, by rw [if_pos hne, hclient]⟩

theorem Announces.agentID {e : HubSection} (h : Announces P c e b) :
    (e.post.conns c).agentID = (e.pre.conns c).agentID := by
  cases h with
  | registered hpost =>
    rw [hpost]
    exact congrArg Identity.agentID (e.pre.registerLocked_spec c).self
  | joined name chanPub created rejoin peers hj =>
    have hframe := Hub.joinLocked_frame P e.pre c name chanPub
    rw [hj] at hframe
    change e.post = _ at hframe
    rw [hframe]
  | left a peers hd =>
    rw [Hub.deregisterLocked_conns hd, Hub.updConn_conns_self]

/-- A registration and a deregistration announce what they do, a join that somebody is there. -/
theorem Announces.connected {e : HubSection} (h : Announces P c e b)
    (hid : (e.pre.conns c).agentID = id) : e.post.connected id = b ∨
      (b = true ∧ e.post.conns = e.pre.conns ∧ e.post.clients = e.pre.clients) := by
  cases h with
  | registered hpost =>
    left
    unfold Hub.connected
    rw [hpost, (e.pre.registerLocked_spec c).clients]
    change (e.pre.clients.insert (e.pre.conns c).agentID c).contains id = true
    simp [hid]
  | joined name chanPub created rejoin peers hj =>
    right
    have hframe := Hub.joinLocked_frame P e.pre c name chanPub
    rw [hj] at hframe
    change e.post = _ at hframe
    exact ⟨rfl, by rw [hframe], (Hub.joinLocked_peers hj).1⟩
  | left a peers hd =>
    left
    rcases Hub.deregisterLocked_peers hd with ⟨h, -⟩ | ⟨a', peers', h, hclients, -⟩
    · cases h
    · unfold Hub.connected
      rw [hclients, hid]
      simp

/-! ### Runs -/

section Runs

variable {messages : ConnID → List Message} {H H0 H1 H2 : HubHistory} {h : Hub}

theorem Step.stays {who : Option ConnID} {h h' : Hub} (hs : Step P who h h')
    (hst : (h.conns d).stage ≠ .absent) : (h'.conns d).stage ≠ .absent ∧
      ((h.conns d).closed = true → (h'.conns d).closed = true) := by
  have hsame : h'.conns d = h.conns d → (h'.conns d).stage ≠ .absent ∧
      ((h.conns d).closed = true → (h'.conns d).closed = true) := fun heq => by
    rw [heq]
    exact ⟨hst, fun hc => hc⟩
  have hupd : ∀ (c : ConnID) (f : Conn → Conn), (d = c → (f (h.conns c)).stage ≠ .absent) →
      (∀ k, (f k).closed = k.closed) → h'.conns = (h.updConn c f).conns →
      (h'.conns d).stage ≠ .absent ∧ ((h.conns d).closed = true → (h'.conns d).closed = true) := by
    intro c f hf hcl heq
    by_cases hdc : d = c
    · subst hdc
      rw [heq, h.updConn_conns_self, hcl]
      exact ⟨hf rfl, fun hc => hc⟩
    · exact hsame (by rw [heq, h.updConn_conns_of_ne f hdc])
  cases hs with
  | quiet hq =>
    have hstage := congrArg Identity.stage (hq.identity d)
    change (h'.conns d).stage = (h.conns d).stage at hstage
    exact ⟨hstage ▸ hst, hq.closed d⟩
  | opened c auth boundName hs =>
    refine hsame (h.updConn_conns_of_ne _ ?_)
    rintro rfl
    exact hst hs
  | greeted c f raw hs hv hn =>
    exact hupd c (fun k => k.authenticated P f) (fun _ => Stage.noConfusion) (fun _ => rfl) rfl
  | registered c hs =>
    have hreg := h.registerLocked_spec c
    refine ⟨?_, hreg.closed d⟩
    by_cases hdc : d = c
    · subst hdc
      have hstage := congrArg Identity.stage hreg.self
      change ((h.registerLocked d).2.conns d).stage = .serving at hstage
      rw [hstage]
      exact Stage.noConfusion
    · have hstage := congrArg Identity.stage (hreg.others d hdc)
      change ((h.registerLocked c).2.conns d).stage = (h.conns d).stage at hstage
      rwa [hstage]
  | touched c hs => exact hsame (by rw [h.touchLastSeenLocked_frame])
  | joined c name chanPub hs => exact hsame (by rw [Hub.joinLocked_frame])
  | enqueued c agentID f hs => exact hsame (by rw [Hub.enqueueLocked_frame])
  | drained c hs => exact hsame rfl
  | latched c key hs => exact hsame rfl
  | enrolled c op hash hs ha => exact hsame rfl
  | left c r hs hc hd =>
    exact hupd c (fun k => { k with stage := .gone }) (fun _ => Stage.noConfusion) (fun _ => rfl)
      (Hub.deregisterLocked_conns hd)
  | evicted id =>
    rcases h.adminEvictLocked_spec id with heq | ⟨-, -, -, hconns⟩
    · exact hsame (by rw [heq])
    · exact hsame (by rw [hconns])
  | aclSet name allowed => exact hsame rfl

/-- A connection that is closed stays closed. -/
theorem HubRun.stays_closed {m m' : Option ConnID × HubSection} {K : HubHistory}
    (hrun : HubRun P messages (H1 ++ m :: (H2 ++ m' :: K)) h)
    (hst : (m.2.post.conns p).stage ≠ .absent)
    (hc : (m'.2.pre.conns p).closed = true ∨ (m'.2.post.conns p).closed = true) :
    (h.conns p).closed = true := by
  obtain ⟨h0, -, -, h01⟩ := hrun.start
  obtain ⟨s, -, h12⟩ := h01.of_append
  obtain ⟨rfl, hl⟩ := h12.of_cons
  have hstep : ∀ m'' ∈ H2 ++ m' :: K, ∃ who, Step P who m''.2.pre m''.2.post := fun m'' hm'' =>
    hrun.step (List.mem_append_right _ (List.mem_cons_of_mem _ hm''))
  have hpre : (m'.2.pre.conns p).stage ≠ .absent :=
    (hl.invariant (I := fun s => (s.conns p).stage ≠ .absent) hst fun m'' hm'' hs =>
      ((hstep m'' hm'').choose_spec.stays hs).1).2 m' (by simp)
  have hpost := (hstep m' (by simp)).choose_spec.stays hpre
  have hclosed : (m'.2.post.conns p).closed = true := hc.elim hpost.2 id
  obtain ⟨s', -, h23⟩ := hl.of_append
  obtain ⟨-, hrest⟩ := h23.of_cons
  refine (hrest.invariant (I := fun s => (s.conns p).stage ≠ .absent ∧ (s.conns p).closed = true)
    ⟨hpost.1, hclosed⟩ fun m'' hm'' hs => ?_).1.2
  obtain ⟨who, hs'⟩ := hstep m'' (List.mem_append_right _ (List.mem_cons_of_mem _ hm''))
  exact ⟨(hs'.stays hs.1).1, (hs'.stays hs.1).2 hs.2⟩

/-- The goroutine of a connection runs only once the connection has been upgraded. -/
theorem Follows.stage {messages : List Message} {t : List HubSection}
    (hf : Follows P c messages t) {e : HubSection} (he : e ∈ t) :
    (e.pre.conns c).stage ≠ .absent := by
  obtain ⟨s, auth, boundName, remote, script, w, hr, hs, hrely, hrun, ht⟩ := hf
  have hsur := surroundings_reachable P c
  have hS : Surroundings P c (Others P c)
      fun s => Reachable P s ∧ (s.conns c).stage ≠ .absent :=
    { stable := by
        intro h h' hR hI
        have hstage := congrArg Identity.stage (hsur.identity h h' hR)
        change (h'.conns c).stage = (h.conns c).stage at hstage
        exact ⟨hsur.stable h h' hR hI.1, by rw [hstage]; exact hI.2⟩
      identity := hsur.identity
      closed := hsur.closed
      step := fun h h' hI hs => ⟨hI.1.step hs, (hs.stays hI.2).1⟩
      coherent := fun h hI => .reachable hI.1 }
  have hstage : ((s.openConn c auth boundName).conns c).stage = .reading := by
    unfold Hub.openConn
    rw [Hub.updConn_conns_self]
  have halive : Alive (fun s => Reachable P s ∧ (s.conns c).stage ≠ .absent) c
      (s.openConn c auth boundName) :=
    ⟨⟨hr.step (.opened c auth boundName hs), by rw [hstage]; exact Stage.noConfusion⟩,
      .inl hstage⟩
  obtain ⟨-, -, u, hu, hown⟩ := serve_spec hS remote messages _ () w hrun hrely halive
  rw [List.nil_append] at hu
  exact (hown e (hu ▸ ht.subset he)).1.2

theorem Ambient.who {h h' : Hub} (ha : Ambient h h') (hst : (h.conns c).stage ≠ .absent) :
    h'.who c = h.who c := by
  cases ha with
  | quiet hq hsend => exact hq.identity c
  | opened d auth boundName hd =>
    refine Hub.who_updConn_of_ne _ _ ?_
    rintro rfl
    exact hst hd
  | evicted id =>
    rcases h.adminEvictLocked_spec id with heq | ⟨-, -, -, hconns⟩
    · rw [heq]
    · unfold Hub.who
      rw [hconns]
  | aclSet name allowed => rfl

/-- Between two sections of a connection the others leave it who it is. -/
theorem HubRun.who_between {K : HubHistory} {e e' : HubSection}
    (hrun : HubRun P messages (H1 ++ (some c, e) :: (H2 ++ (some c, e') :: K)) h)
    (hnone : H2.own c = []) : e'.pre.who c = e.post.who c := by
  obtain ⟨h0, -, -, h01⟩ := hrun.start
  obtain ⟨s, -, h12⟩ := h01.of_append
  obtain ⟨rfl, hl⟩ := h12.of_cons
  have hown := hrun.follows c (by simp)
  have hstage : (e.post.conns c).stage ≠ .absent := by
    have hmem : e ∈ History.own (H1 ++ (some c, e) :: (H2 ++ (some c, e') :: K)) c := by simp
    exact (((hown.step hmem).2).stays (hown.stage hmem)).1
  obtain ⟨s', hbetween, hrest⟩ := hl.of_append
  obtain ⟨rfl, -⟩ := hrest.of_cons
  refine (hbetween.invariant (I := fun s => s.who c = e.post.who c) rfl fun m hm hs => ?_).1
  have hmem : m ∈ H1 ++ (some c, e) :: (H2 ++ (some c, e') :: K) := by simp [hm]
  have hwho : m.1 ≠ some c := by
    intro hc
    obtain ⟨_ | d, x⟩ := m
    · cases hc
    · obtain rfl := Option.some.inj hc
      have hx := History.mem_own.mpr hm
      rw [hnone] at hx
      cases hx
  rw [← hs]
  obtain ⟨_ | d, x⟩ := m
  · refine (hrun.ambient x hmem).who fun habsent => hstage ?_
    exact (congrArg Identity.stage hs).symm.trans habsent
  · exact (hrun.own_step hmem).2.who_of_ne hwho

/-- Mailboxes hold nothing but messages. -/
theorem HubRun.mail_op (hrun : HubRun P messages H h) {r : String} {q : List Frame} {g : Frame}
    (hq : h.mailbox[r]? = some q) (hg : g ∈ q) : g.op = "msg" := by
  induction H using List.reverseRecOn generalizing h q with
  | nil =>
    obtain ⟨h0, hf, -, hl⟩ := hrun.start
    obtain rfl := hl.of_nil
    simp [hf.mailbox] at hq
  | append_singleton H m ih =>
    obtain ⟨hbefore, rfl⟩ := hrun.of_concat
    obtain ⟨_ | c, e⟩ := m
    · have hamb := hrun.ambient e (List.mem_append_right _ (List.mem_singleton_self _))
      exact ih hbefore (hamb.mailbox hq) hg
    · rcases hrun.last_act.mailbox (fun _ ht => ht) hq hg with ⟨q', hq', hg'⟩ | ⟨a, -, -, rfl⟩
      · exact ih hbefore hq' hg'
      · unfold routed
        split
        · rfl
        · rfl

theorem HubRun.informs (hrun : HubRun P messages H h) (hown : H.own c ≠ []) :
    ∃ t, H.own c <+: t ∧ Informs P c t := by
  obtain ⟨s, auth, boundName, remote, script, w, -, -, -, hserve, ht⟩ := hrun.follows c hown
  obtain ⟨t, hw, hinf⟩ := informing_serve remote (messages c) _ () w hserve
  rw [hw, List.nil_append] at ht
  exact ⟨t, ht, hinf⟩

/-- `p` is told of the agent. -/
def Informed (p : ConnID) (id : String) (b : Bool) (e : HubSection) : Prop :=
  ∃ r, Queues p r e ∧ Tells id b r

theorem Hub.mem_presenceList (h : Hub) {i : AgentInfo} (hi : i ∈ h.presenceList) :
    ∃ a, h.agents[i.agentID]? = some a ∧ a.online = i.online := by
  obtain ⟨⟨id, a⟩, ha, rfl⟩ := List.mem_map.mp hi
  exact ⟨a, Std.ExtTreeMap.mem_toList_iff_getElem?_eq_some.mp ha, rfl⟩

/-- Whoever is told was a peer when the agent was announced, or asked. -/
theorem HubRun.grounded {e : HubSection}
    (hrun : HubRun P messages (H1 ++ (some c, e) :: H2) h) (he : Informed p id b e) :
    ∃ (K1 : HubHistory) (x : HubSection) (K2 : HubHistory), H1 = K1 ++ (some c, x) :: K2 ∧
      x.label = .mu ∧ (∀ y ∈ K2.own c, y.label ≠ .mu) ∧
      ((Announces P c x b ∧ (x.pre.conns c).agentID = id ∧ x.post.Hears p id) ∨
        (p = c ∧ x.post = x.pre ∧ ∃ a, x.pre.agents[id]? = some a ∧ a.online = b)) := by
  obtain ⟨r, ⟨hl, -⟩, f, rfl, hop, i, hi, rfl, rfl⟩ := he
  have hown : History.own (H1 ++ (some c, e) :: H2) c = H1.own c ++ e :: H2.own c := by
    rw [History.own_append, History.own_cons_self]
  obtain ⟨t, ⟨u, rfl⟩, hinf⟩ := hrun.informs (c := c) (by rw [hown]; simp)
  have hb := hinf.behind (H1.own c) e (H2.own c ++ u) p f (by rw [hown]; simp) hl hop
  rcases hb with ⟨u, x, own, v, hsplit, hx, hv, hlown, hp, a, rfl, hann⟩ |
    ⟨u, x, v, hsplit, hx, hv, rfl, hpost, replyTo, rfl⟩ | ⟨x, hx, id, hmail⟩
  · obtain rfl := List.mem_singleton.mp hi
    obtain ⟨K1, K2, rfl, -, hK2⟩ := History.split_of_own hsplit
    have hhead : History.own K2 c = [] ++ own :: v := hK2
    obtain ⟨J1, J2, rfl, hJ1, -⟩ := History.split_of_own hhead
    refine ⟨K1, x, J1 ++ (some c, own) :: J2, rfl, hx, ?_, .inl ⟨hann, ?_, ?_⟩⟩
    · rw [hK2]
      intro y hy
      rcases List.mem_cons.mp hy with rfl | hy
      · rw [hlown]
        exact Label.noConfusion
      · exact hv y hy
    all_goals
      have hsame : (own.pre.conns c).agentID = (x.pre.conns c).agentID := by
        rw [List.append_assoc, List.cons_append, List.append_assoc, List.cons_append] at hrun
        have hwho := hrun.who_between hJ1
        exact (congrArg Identity.agentID hwho).trans hann.agentID
    · exact hsame.symm
    · change x.post.Hears p (own.pre.conns c).agentID
      rw [hsame]
      exact x.post.mem_presencePeersLocked.mp hp
  · obtain ⟨K1, K2, rfl, -, hK2⟩ := History.split_of_own hsplit
    exact ⟨K1, x, K2, rfl, hx, hK2 ▸ hv, .inr ⟨rfl, hpost, x.pre.mem_presenceList hi⟩⟩
  · exfalso
    obtain ⟨J1, J2, hJ⟩ := List.append_of_mem (History.mem_own.mp hx)
    rw [hJ, List.append_assoc] at hrun
    cases hq : x.pre.mailbox[id]? with
    | none => simp [hq] at hmail
    | some q =>
      rw [hq, Option.getD_some] at hmail
      have hmsg := hrun.of_append.mail_op hq hmail
      rw [hop] at hmsg
      exact absurd hmsg (by decide)

/-- In every run of the hub each frame that tells an agent of another one goes back to the last
critical section of its goroutine: the goroutine announces its own agent, and the connection belongs
to another agent that shares a channel with it; or it answers the query of the connection itself. -/
theorem presence_grounded {e : HubSection}
    (hrun : HubRun P messages (H1 ++ (some c, e) :: H2) h) (he : Informed p id b e) :
    ∃ (K1 : HubHistory) (x : HubSection) (K2 : HubHistory), H1 = K1 ++ (some c, x) :: K2 ∧
      x.label = .mu ∧ (∀ y ∈ K2.own c, y.label ≠ .mu) ∧
      ((Announces P c x b ∧ (x.pre.conns c).agentID = id ∧ x.post.Hears p id) ∨
        (p = c ∧ x.post = x.pre ∧ ∃ a, x.pre.agents[id]? = some a ∧ a.online = b)) :=
  hrun.grounded he

/-! ### Convergence -/

/-- No announcement of the agent to `p` is overtaken: between the critical section that it rests on
and its way into the queue the agent neither comes online nor goes offline. -/
def Timely (id : String) (p : ConnID) (H : HubHistory) : Prop :=
  ∀ A d x B e C b, H = A ++ (some d, x) :: (B ++ (some d, e) :: C) → x.label = .mu →
    (∀ y ∈ History.own B d, y.label ≠ .mu) → Informed p id b e → ∀ m ∈ B, ¬ Flips id m.2

/-- No connection of the agent goes on working while the agent is offline. -/
def Loyal (id : String) (H : HubHistory) : Prop :=
  ∀ d x, (some d, x) ∈ H → x.label = .mu → (x.pre.conns d).agentID = id →
    (x.post.conns d).stage = (x.pre.conns d).stage → x.pre.connected id = true

/-- Whoever has come online or gone offline is done with what it did then. -/
def Settled (id : String) (H : HubHistory) : Prop :=
  ∀ A c e B, H = A ++ (some c, e) :: B → Flips id e → ∃ y ∈ History.own B c, Finishes c y

theorem exists_last {α : Type} {Q : α → Prop} {l : List α} (h : ∃ x ∈ l, Q x) :
    ∃ l1 x l2, l = l1 ++ x :: l2 ∧ Q x ∧ ∀ y ∈ l2, ¬ Q y := by
  induction l using List.reverseRecOn with
  | nil =>
    obtain ⟨x, hx, -⟩ := h
    cases hx
  | append_singleton l y ih =>
    by_cases hy : Q y
    · exact ⟨l, y, [], rfl, hy, fun _ h => by cases h⟩
    · obtain ⟨x, hx, hq⟩ := h
      have hmem : x ∈ l := by
        rcases List.mem_append.mp hx with hx | hx
        · exact hx
        · exact absurd (List.mem_singleton.mp hx ▸ hq) hy
      obtain ⟨l1, z, l2, rfl, hz, hl2⟩ := ih ⟨x, hmem, hq⟩
      refine ⟨l1, z, l2 ++ [y], by simp, hz, fun w hw => ?_⟩
      rcases List.mem_append.mp hw with hw | hw
      · exact hl2 w hw
      · exact List.mem_singleton.mp hw ▸ hy

theorem Ambient.connected {h h' : Hub} (ha : Ambient h h') : h'.connected id = h.connected id := by
  unfold Hub.connected
  cases ha with
  | quiet hq hsend => rw [hq.clients]
  | opened c auth boundName hs => rfl
  | evicted id =>
    rcases h.adminEvictLocked_spec id with heq | ⟨-, -, hclients, -⟩
    · rw [heq]
    · rw [hclients]
  | aclSet name allowed => rfl

theorem Ambient.send_length {h h' : Hub} (ha : Ambient h h') :
    (h'.conns p).send.length ≤ (h.conns p).send.length := by
  cases ha with
  | quiet hq hsend => exact (hsend p).length_le
  | opened c auth boundName hs =>
    unfold Hub.openConn
    by_cases hpc : p = c
    · subst hpc
      rw [h.updConn_conns_self]
      exact Nat.zero_le _
    · rw [h.updConn_conns_of_ne _ hpc]
  | evicted id =>
    rcases h.adminEvictLocked_spec id with heq | ⟨-, -, -, hconns⟩
    · rw [heq]
    · rw [hconns]
  | aclSet name allowed => exact le_rfl

theorem Coherent.connected_iff (hi : Coherent P h) {a : AgentEntry}
    (ha : h.agents[id]? = some a) : a.online = h.connected id := by
  unfold Hub.connected
  cases hc : h.clients.contains id with
  | true =>
    obtain ⟨d, hd⟩ := Option.isSome_iff_exists.mp
      (Std.ExtTreeMap.isSome_getElem?_eq_contains.trans hc)
    obtain ⟨-, -, a', ha', hon, -⟩ := hi.client id d hd
    rw [ha] at ha'
    exact Option.some.inj ha' ▸ hon
  | false =>
    by_contra hon
    obtain ⟨d, hd⟩ := hi.online id a ha (by simpa using hon)
    have hmem : h.clients.contains id = true :=
      Std.ExtTreeMap.isSome_getElem?_eq_contains.symm.trans (by rw [hd]; rfl)
    rw [hc] at hmem
    cases hmem

/-- The change of an agent's state reaches a peer that stays open. -/
theorem HubRun.change_told {e : HubSection} {K : HubHistory}
    (hrun : HubRun P messages (H1 ++ (some c, e) :: K) h) (hf : Flips id e)
    (hp : p ∈ e.post.presencePeersLocked id) (hopen : (h.conns p).closed = false)
    (hdone : ∃ y ∈ K.own c, Finishes c y) :
    ∃ x ∈ K.own c, Informed p id (e.post.connected id) x := by
  have hown : History.own (H1 ++ (some c, e) :: K) c = H1.own c ++ e :: K.own c := by
    rw [History.own_append, History.own_cons_self]
  obtain ⟨t, ⟨r, rfl⟩, hinf⟩ := hrun.informs (c := c) (by rw [hown]; simp)
  obtain ⟨hid, hann, hpeers⟩ := hinf.told (H1.own c) e (K.own c ++ r) id (by rw [hown]; simp) hf
  obtain ⟨own, u, x, v, hsplit, hlown, hreach, hgoes⟩ := hpeers p hp
  -- the goroutine has finished since, so the announcement lies behind it
  have hprefix : ∃ v', K.own c = own :: (u ++ x :: v') := by
    have hcut : K.own c ++ r = (own :: (u ++ [x])) ++ v := by rw [hsplit]; simp
    rcases List.append_eq_append_iff.mp hcut with ⟨s, hs, -⟩ | ⟨s, hs, -⟩
    · obtain ⟨y, hy, hfin⟩ := hdone
      exact absurd hfin (hgoes y (hs ▸ List.mem_append_left _ hy))
    · exact ⟨s, by rw [hs]; simp⟩
  obtain ⟨v', hK⟩ := hprefix
  have hx : x ∈ K.own c := by rw [hK]; simp
  have hhead : History.own K c = [] ++ own :: (u ++ x :: v') := hK
  obtain ⟨J1, J2, hJ, hJ1, -⟩ := History.split_of_own hhead
  have hsame : (own.pre.conns c).agentID = id := by
    rw [hJ] at hrun
    have hwho := hrun.who_between hJ1
    exact (congrArg Identity.agentID hwho).trans (hann.agentID.trans hid)
  rw [hsame] at hreach
  refine ⟨x, hx, hreach.resolve_right fun hclosed => ?_⟩
  obtain ⟨A, B, rfl⟩ := List.append_of_mem (History.mem_own.mp hx)
  have hpost : Reachable P e.post :=
    hrun.of_append.reachable.step (hrun.own_step (c := c) (by simp)).2
  obtain ⟨member, -, -, hclient, -⟩ := e.post.mem_presencePeersLocked.mp hp
  have hstage := ((Coherent.reachable hpost).client member p hclient).1
  have hc := hrun.stays_closed (p := p) (by
    change (e.post.conns p).stage = .serving at hstage
    rw [hstage]
    exact Stage.noConfusion) hclosed
  rw [hopen] at hc
  cases hc

/-- What is told of an agent is so, unless it is overtaken by a change. -/
theorem HubRun.told_truly {m : Option ConnID × HubSection} {K : HubHistory}
    (hrun : HubRun P messages (H1 ++ m :: K) h) (hm : Informed p id b m.2)
    (htimely : Timely id p (H1 ++ m :: K)) (hloyal : Loyal id (H1 ++ m :: K))
    (hcalm : ∀ m' ∈ m :: K, ¬ Flips id m'.2) : b = h.connected id := by
  obtain ⟨_ | c, e⟩ := m
  · exfalso
    obtain ⟨r, ⟨-, hsend⟩, -⟩ := hm
    have hle := (hrun.ambient e (by simp)).send_length (p := p)
    rw [hsend, List.length_append, List.length_singleton] at hle
    exact Nat.not_succ_le_self _ hle
  obtain ⟨K1, x, K2, rfl, hx, hK2, hground⟩ := hrun.grounded hm
  have hsplit : K1 ++ (some c, x) :: K2 ++ (some c, e) :: K =
      K1 ++ (some c, x) :: (K2 ++ (some c, e) :: K) := by simp
  rw [hsplit] at hrun htimely hloyal
  have hquiet : ∀ m' ∈ K2 ++ (some c, e) :: K, ¬ Flips id m'.2 := by
    intro m' hm'
    rcases List.mem_append.mp hm' with hm' | hm'
    · exact htimely K1 c x K2 e K b rfl hx hK2 hm m' hm'
    · exact hcalm m' hm'
  have hend : h.connected id = x.post.connected id := by
    obtain ⟨h0, -, -, h01⟩ := hrun.start
    obtain ⟨s, -, h12⟩ := h01.of_append
    obtain ⟨rfl, hl⟩ := h12.of_cons
    refine (hl.invariant (I := fun s => s.connected id = x.post.connected id) rfl
      fun m' hm' hs => ?_).1
    exact (not_not.mp (hquiet m' hm')).trans hs
  rw [hend]
  rcases hground with ⟨hann, hid, -⟩ | ⟨rfl, hpost, a, ha, rfl⟩
  · rcases hann.connected hid with hc | ⟨rfl, hconns, hclients⟩
    · exact hc.symm
    · have hon := hloyal c x (by simp) hx hid (by rw [hconns])
      unfold Hub.connected at hon ⊢
      rw [hclients, hon]
  · rw [hpost]
    exact (Coherent.reachable hrun.of_append.reachable).connected_iff ha

/-- When nobody's announcement of an agent is overtaken by a change, and no connection of the agent
works on while it is offline, the last thing that a peer is told of its being online, from its first
change on, is what the registry says of that; the peer hears of each change and stays open. -/
theorem presence_converges (hrun : HubRun P messages (H0 ++ H) h) (htimely : Timely id p (H0 ++ H))
    (hloyal : Loyal id (H0 ++ H)) (hsettled : Settled id H)
    (hhears : ∀ m ∈ H, Flips id m.2 → m.2.post.Hears p id) (hopen : (h.conns p).closed = false)
    (hchanges : ∃ m ∈ H, Flips id m.2) :
    ∃ A m B b, H = A ++ m :: B ∧ Informed p id b m.2 ∧
      (∀ m' ∈ B, ∀ b', ¬ Informed p id b' m'.2) ∧ b = h.connected id ∧
      ∀ a, h.agents[id]? = some a → a.online = b := by
  obtain ⟨A, m, K, rfl, hflip, hcalm⟩ := exists_last hchanges
  obtain ⟨_ | c, e⟩ := m
  · exact absurd (hrun.ambient e (by simp)).connected hflip
  have hsplit : H0 ++ (A ++ (some c, e) :: K) = (H0 ++ A) ++ (some c, e) :: K := by simp
  rw [hsplit] at hrun htimely hloyal
  have hpeer := e.post.mem_presencePeersLocked.mpr (hhears (some c, e) (by simp) hflip)
  obtain ⟨x, hx, htold⟩ := hrun.change_told hflip hpeer hopen (hsettled A c e K rfl hflip)
  obtain ⟨B1, m, B2, rfl, ⟨b, hm⟩, hlast⟩ := exists_last
    (Q := fun m : Option ConnID × HubSection => ∃ b, Informed p id b m.2)
    ⟨_, History.mem_own.mp hx, _, htold⟩
  have hsplit' : H0 ++ A ++ (some c, e) :: (B1 ++ m :: B2) =
      (H0 ++ A ++ (some c, e) :: B1) ++ m :: B2 := by simp
  rw [hsplit'] at hrun htimely hloyal
  have hb := hrun.told_truly hm htimely hloyal fun m' hm' =>
    hcalm m' (List.mem_append_right _ hm')
  refine ⟨A ++ (some c, e) :: B1, m, B2, b, by simp, hm, fun m' hm' b' h' => ?_, hb, ?_⟩
  · exact hlast m' hm' ⟨b', h'⟩
  · intro a ha
    exact ((Coherent.reachable hrun.reachable).connected_iff ha).trans hb.symm

end Runs

/-! ### Samples -/

instance (id : String) (e : HubSection) : Decidable (Flips id e) :=
  inferInstanceAs (Decidable (e.post.connected id ≠ e.pre.connected id))

/-- Only critical sections of the registry change who is connected. -/
theorem Act.flips {S : Scope} {e : HubSection} (he : Act c S e) (hd : ∀ e, S.does e → Task P c e)
    (hf : Flips id e) : e.label = .mu := by
  cases he with
  | @stored s pick id' f hm =>
    refine absurd hf fun h => h ?_
    unfold Hub.connected
    rw [Hub.enqueueLocked_frame]
  | other he =>
    have ht := hd _ he
    cases ht with
    | checked f raw => exact absurd rfl hf
    | looked => exact absurd rfl hf
    | latched pub key => exact absurd rfl hf
    | drawn => exact absurd rfl hf
    | _ => rfl
  | _ => exact absurd rfl hf

theorem Timely.concat {H : HubHistory} (h : Timely id p H) {m : Option ConnID × HubSection}
    (hm : ∀ A d x B, m.1 = some d → H = A ++ (some d, x) :: B → x.label = .mu →
      (∀ y ∈ History.own B d, y.label ≠ .mu) → ∀ m' ∈ B, ¬ Flips id m'.2) :
    Timely id p (H ++ [m]) := by
  intro A d x B e C b heq hx hB hinf
  rcases List.eq_nil_or_concat C with rfl | ⟨C', y, rfl⟩
  · rw [← List.cons_append, ← List.append_assoc] at heq
    obtain ⟨rfl, hlast⟩ := List.append_inj' heq rfl
    exact hm A d x B (congrArg Prod.fst (List.cons.inj hlast).1) rfl hx hB
  · have hinit := congrArg List.dropLast heq
    rw [List.dropLast_concat, List.concat_eq_append, ← List.cons_append, ← List.append_assoc,
      ← List.cons_append, ← List.append_assoc, List.dropLast_concat] at hinit
    exact h A d x B e C' b (by simpa using hinit) hx hB hinf

theorem Timely.ambient {H : HubHistory} (h : Timely id p H) (e : HubSection) :
    Timely id p (H ++ [(none, e)]) :=
  h.concat fun _ _ _ _ hd => absurd hd (Option.some_ne_none _).symm

/-- A goroutine overtakes no announcement of its own. -/
theorem Timely.block {H : HubHistory} (h : Timely id p H) {t : List HubSection}
    (hown : H.own c = []) (ht : ∀ e ∈ t, Flips id e → e.label = .mu) :
    Timely id p (H ++ History.of c t) := by
  induction t using List.reverseRecOn with
  | nil => rwa [History.of, List.map_nil, List.append_nil]
  | append_singleton t y ih =>
    have hof : History.of c (t ++ [y]) = History.of c t ++ [(some c, y)] := by
      simp [History.of]
    rw [hof, ← List.append_assoc]
    refine (ih fun e he => ht e (List.mem_append_left _ he)).concat ?_
    intro A d x B hd heq hx hB m hm hf
    obtain rfl := Option.some.inj hd
    rcases append_cut heq with ⟨r, -, hr⟩ | ⟨r, hr, -⟩
    · have hmem : m ∈ History.of c t := hr ▸ List.mem_append_right _ (List.mem_cons_of_mem _ hm)
      obtain ⟨z, hz, rfl⟩ := List.mem_map.mp hmem
      exact hB z (History.mem_own.mpr hm) (ht z (List.mem_append_left _ hz) hf)
    · have hmem : x ∈ H.own c := History.mem_own.mpr (by rw [hr]; simp)
      rw [hown] at hmem
      cases hmem

theorem records_wsClose (kvs : Hub → List (String × String)) :
    Records (logf "ws_close" kvs) fun _ t => ∃ y, t = [y] ∧ Finishes c y :=
  Records.modify fun s pick =>
    ⟨⟨.log, s, s.logged "ws_close" (kvs s), pick⟩, rfl, .inr ⟨rfl, kvs s, rfl⟩⟩

/-- The trace of a connection ends with its end. -/
theorem records_serve_finishes (remote : String) (messages : List Message) :
    Records (serve P c remote messages) fun _ t => ∃ u y, t = u ++ [y] ∧ Finishes c y := by
  refine Records.bind (Q := fun _ _ => True) (Records.modify fun _ _ => trivial) fun _ t1 _ => ?_
  refine Records.bind (Q := fun _ _ => True) (fun w a w' hrun => ?_) fun _ t2 _ => ?_
  · obtain ⟨t, ht, -⟩ := informing_readLoop messages w a w' hrun
    exact ⟨t, ht, trivial⟩
  refine Records.bind (Q := fun _ _ => True) (fun w a w' hrun => ?_) fun _ t3 _ => ?_
  · obtain ⟨t, ht, -⟩ := informing_deregister (P := P) w a w' hrun
    exact ⟨t, ht, trivial⟩
  · refine (records_wsClose (c := c) _).mono ?_
    rintro _ _ ⟨y, rfl, hy⟩
    exact ⟨t1 ++ (t2 ++ t3), y, by simp, hy⟩

theorem Settled.block {t : List HubSection} {o : Option ConnID × HubSection} (ho : o.1 = none)
    (ht : ∃ u y, t = u ++ [y] ∧ Finishes c y) (hmu : ∀ e ∈ t, Flips id e → e.label = .mu) :
    Settled id ([o] ++ History.of c t) := by
  intro A d e B heq hf
  obtain ⟨u, y, rfl, hy⟩ := ht
  have hmem : (some d, e) ∈ History.of c (u ++ [y]) := by
    have hin : (some d, e) ∈ [o] ++ History.of c (u ++ [y]) := by rw [heq]; simp
    rcases List.mem_append.mp hin with hin | hin
    · rw [← List.mem_singleton.mp hin] at ho
      cases ho
    · exact hin
  obtain rfl := History.eq_of_mem_of hmem
  obtain ⟨e', he', heq'⟩ := List.mem_map.mp hmem
  obtain rfl := (Prod.mk.inj heq').2
  have hof : [o] ++ History.of d (u ++ [y]) = ([o] ++ History.of d u) ++ [(some d, y)] := by
    simp [History.of]
  rw [hof] at heq
  rcases List.eq_nil_or_concat B with rfl | ⟨B', z, rfl⟩
  · exfalso
    obtain ⟨-, hlast⟩ := List.append_inj' heq rfl
    obtain rfl := (Prod.mk.inj (List.cons.inj hlast).1).2
    have hl := hmu y he' hf
    rcases hy with hy | ⟨hy, -⟩
    · exact Label.noConfusion (hl.symm.trans hy)
    · exact Label.noConfusion (hl.symm.trans hy)
  · rw [List.concat_eq_append, ← List.cons_append, ← List.append_assoc] at heq
    obtain ⟨-, hlast⟩ := List.append_inj' heq rfl
    rw [← (List.cons.inj hlast).1]
    exact ⟨y, History.mem_own.mpr (by simp), hy⟩

/-- What a connection records that is served alone. -/
theorem serve_alone (id : String) {remote : String} {messages : List Message} {s : Hub}
    {w : World Hub Label}
    (hrun : alone (serve P c remote messages) s = some ((), w)) :
    (∀ e ∈ w.trace, Flips id e → e.label = .mu) ∧ ∃ u y, w.trace = u ++ [y] ∧ Finishes c y := by
  have hemits : Emits (Act c (everything P c)) (serve P c remote messages) :=
    Act.serve (serves_everything P c) (fun _ _ => trivial) (fun _ _ => trivial) remote _
  obtain ⟨t, ht, u, y, rfl, hy⟩ := records_serve_finishes remote messages _ () w hrun
  rw [List.nil_append] at ht
  exact ⟨fun e he => ((linked_alone hemits hrun c).2 e he).flips fun _ h => h, u, y, ht, hy⟩

/-- Alice and Bob join the room. -/
def reunionMessages (c : ConnID) : List Message :=
  if c = 0 then [wire (sampleHello 0), wire joinRoom]
  else if c = 1 then [wire peerHello, wire joinRoom]
  else [wire { sampleHello 0 with nonce := "00112233445566778899aabbccddeefe" }]

/-- The goroutine drops its own connection. -/
def leaves (c : ConnID) (e : HubSection) : Bool := e.label = .drop c

def loyalAt (id : String) (c : ConnID) (e : HubSection) : Bool :=
  !(e.label = .mu && (e.pre.conns c).agentID = id &&
    (e.post.conns c).stage = (e.pre.conns c).stage) || e.pre.connected id

theorem Loyal.ambient {H : HubHistory} (h : Loyal id H) (e : HubSection) :
    Loyal id (H ++ [(none, e)]) := by
  intro d x hx
  rcases List.mem_append.mp hx with hx | hx
  · exact h d x hx
  · exact absurd (congrArg Prod.fst (List.mem_singleton.mp hx)) (Option.some_ne_none d)

theorem Loyal.block {H : HubHistory} (h : Loyal id H) {t : List HubSection}
    (ht : ∀ e ∈ t, loyalAt id c e = true) : Loyal id (H ++ History.of c t) := by
  intro d x hx hl hid hst
  rcases List.mem_append.mp hx with hx | hx
  · exact h d x hx hl hid hst
  · obtain ⟨e, he, heq⟩ := List.mem_map.mp hx
    obtain ⟨hd, rfl⟩ := Prod.mk.inj heq
    obtain rfl := Option.some.inj hd
    simpa [loyalAt, hl, hid, hst] using ht e he

theorem reunion_runs : ((alone (serve lenientPlatform 0 "" (reunionMessages 0))
    (({} : Hub).openConn 0 .master "")).bind fun r0 =>
      (alone (serve lenientPlatform 1 "" (reunionMessages 1))
        (r0.2.state.openConn 1 .master "")).bind fun r1 =>
          (r1.2.trace.dropWhile fun e => !leaves 1 e).head?.bind fun x =>
            (alone (serve lenientPlatform 2 "" (reunionMessages 2))
              (x.pre.openConn 2 .master "")).map fun r2 =>
                decide ((r0.2.state.conns 1).stage = .absent) &&
                decide ((x.pre.conns 2).stage = .absent) &&
                (r0.2.trace.all (loyalAt alice 0)) && (r1.2.trace.all (loyalAt alice 1)) &&
                (r2.2.trace.all (loyalAt alice 2)) &&
                (r2.2.trace.all fun e => !decide (Flips alice e) ||
                  (e.post.presencePeersLocked alice).contains 1) &&
                (r2.2.trace.any fun e => decide (Flips alice e)) &&
                !(r2.2.state.conns 1).closed) = some true := by
  decide +kernel

/-- Alice has left the room that Bob is in, and comes and goes again. -/
theorem reunion : ∃ H0 H h, HubRun lenientPlatform reunionMessages (H0 ++ H) h ∧
    Timely alice 1 (H0 ++ H) ∧ Loyal alice (H0 ++ H) ∧ Settled alice H ∧
    (∀ m ∈ H, Flips alice m.2 → m.2.post.Hears 1 alice) ∧ (h.conns 1).closed = false ∧
    ∃ m ∈ H, Flips alice m.2 := by
  obtain ⟨⟨_, w0⟩, hw0, hruns⟩ := Option.bind_eq_some_iff.mp reunion_runs
  obtain ⟨⟨_, w1⟩, hw1, hruns⟩ := Option.bind_eq_some_iff.mp hruns
  obtain ⟨x, hx, hruns⟩ := Option.bind_eq_some_iff.mp hruns
  obtain ⟨⟨_, w2⟩, hw2, htrue⟩ := Option.map_eq_some_iff.mp hruns
  simp only [Bool.and_eq_true, decide_eq_true_eq, List.all_eq_true, List.any_eq_true,
    Bool.or_eq_true, Bool.not_eq_true', decide_eq_false_iff_not, List.contains_iff_mem] at htrue
  obtain ⟨⟨⟨⟨⟨⟨⟨habsent1, habsent2⟩, hloyal0⟩, hloyal1⟩, hloyal2⟩, hhears⟩, hflips⟩, hopen⟩ := htrue
  -- Bob's goroutine is stopped before it drops its connection
  let t1 := w1.trace.takeWhile fun e => !leaves 1 e
  obtain ⟨rest, hrest⟩ : ∃ rest, w1.trace = t1 ++ x :: rest := by
    obtain ⟨rest, hrest⟩ := List.head?_eq_some_iff.mp hx
    exact ⟨rest, by rw [← hrest, List.takeWhile_append_dropWhile]⟩
  have hofs : History.of (1 : ConnID) w1.trace =
      History.of 1 t1 ++ (some 1, x) :: History.of 1 rest := by
    rw [hrest]
    simp [History.of]
  let o0 : Option ConnID × HubSection :=
    (none, ⟨.config, ({} : Hub), ({} : Hub).openConn 0 .master "", true⟩)
  let o1 : Option ConnID × HubSection :=
    (none, ⟨.config, w0.state, w0.state.openConn 1 .master "", true⟩)
  let o2 : Option ConnID × HubSection :=
    (none, ⟨.config, x.pre, x.pre.openConn 2 .master "", true⟩)
  have hrun0 := (HubRun.fresh (P := lenientPlatform) reunionMessages).served rfl rfl hw0
  have hown1 : History.own ([] ++ [o0] ++ History.of (0 : ConnID) w0.trace) (1 : ConnID) = [] := by
    rw [History.own_append, History.own_of_of_ne (by decide)]
    rfl
  have hrun1 := hrun0.served hown1 habsent1 hw1
  rw [hofs, ← List.append_assoc] at hrun1
  have hbefore := hrun1.of_append
  have hown2 : History.own ([] ++ [o0] ++ History.of (0 : ConnID) w0.trace ++ [o1] ++
      History.of (1 : ConnID) t1) (2 : ConnID) = [] := by
    rw [History.own_append, History.own_append, History.own_append,
      History.own_of_of_ne (by decide), History.own_of_of_ne (by decide)]
    rfl
  have hrun2 := hbefore.served hown2 habsent2 hw2
  obtain ⟨hmu0, -⟩ := serve_alone alice hw0
  obtain ⟨hmu1, -⟩ := serve_alone alice hw1
  obtain ⟨hmu2, hend2⟩ := serve_alone alice hw2
  have ht1 : ∀ e ∈ t1, e ∈ w1.trace := fun e he => hrest ▸ List.mem_append_left _ he
  have hsplit : [] ++ [o0] ++ History.of (0 : ConnID) w0.trace ++ [o1] ++
      History.of (1 : ConnID) t1 ++ [o2] ++ History.of (2 : ConnID) w2.trace =
      ([] ++ [o0] ++ History.of (0 : ConnID) w0.trace ++ [o1] ++ History.of (1 : ConnID) t1) ++
        ([o2] ++ History.of (2 : ConnID) w2.trace) := by simp
  have hmem : ∀ m ∈ [o2] ++ History.of (2 : ConnID) w2.trace, Flips alice m.2 →
      ∃ e ∈ w2.trace, (some 2, e) = m := by
    intro m hm hf
    rcases List.mem_append.mp hm with hm | hm
    · rw [List.mem_singleton.mp hm] at hf
      exact absurd rfl hf
    · exact List.mem_map.mp hm
  have hnil : Timely alice 1 [] := fun A d x B e C b heq => by simp at heq
  have h0 : Timely alice 1 ([] ++ [o0] ++ History.of (0 : ConnID) w0.trace) :=
    (hnil.ambient _).block rfl hmu0
  have hown1' : History.own ([] ++ [o0] ++ History.of (0 : ConnID) w0.trace ++ [o1])
      (1 : ConnID) = [] := by
    rw [History.own_append, hown1]
    rfl
  have h1 := (h0.ambient o1.2).block hown1' fun e he => hmu1 e (ht1 e he)
  have hown2' : History.own ([] ++ [o0] ++ History.of (0 : ConnID) w0.trace ++ [o1] ++
      History.of (1 : ConnID) t1 ++ [o2]) (2 : ConnID) = [] := by
    rw [History.own_append, hown2]
    rfl
  have htimely := (h1.ambient o2.2).block hown2' hmu2
  have hnone : Loyal alice [] := fun d x hx => by cases hx
  have hloyal := ((((((hnone.ambient o0.2).block hloyal0).ambient o1.2).block
    (t := t1) fun e he => hloyal1 e (ht1 e he)).ambient o2.2).block hloyal2)
  rw [hsplit] at hrun2 htimely
  refine ⟨_, _, _, hrun2, htimely, hsplit ▸ hloyal, Settled.block rfl hend2 hmu2, ?_, hopen, ?_⟩
  · intro m hm hf
    obtain ⟨e, he, rfl⟩ := hmem m hm hf
    exact e.post.mem_presencePeersLocked.mp ((hhears e he).resolve_left fun h => h hf)
  · obtain ⟨e, he, hf⟩ := hflips
    exact ⟨(some 2, e), List.mem_append_right _ (List.mem_map.mpr ⟨e, he, rfl⟩), hf⟩

/-- Somebody is told of the agent. -/
theorem reunion_told : ∃ H1 c e H2 h p b,
    HubRun lenientPlatform reunionMessages (H1 ++ (some c, e) :: H2) h ∧ Informed p alice b e := by
  obtain ⟨H0, H, h, hrun, -, -, hsettled, hhears, hopen, m, hm, hf⟩ := reunion
  obtain ⟨A, B, rfl⟩ := List.append_of_mem hm
  rw [← List.append_assoc] at hrun
  obtain ⟨_ | c, e⟩ := m
  · exact absurd (hrun.ambient e (by simp)).connected hf
  have hpeer := e.post.mem_presencePeersLocked.mpr (hhears (some c, e) (by simp) hf)
  obtain ⟨x, hx, htold⟩ := hrun.change_told hf hpeer hopen (hsettled A c e B rfl hf)
  obtain ⟨C, D, rfl⟩ := List.append_of_mem (History.mem_own.mp hx)
  rw [← List.cons_append, ← List.append_assoc] at hrun
  exact ⟨_, _, _, _, _, _, _, hrun, htold⟩

theorem presence_grounded_sample : ∃ messages H1 c e H2 h p id b,
    HubRun lenientPlatform messages (H1 ++ (some c, e) :: H2) h ∧ Informed p id b e ∧
      ∃ K1 x K2, H1 = K1 ++ (some c, x) :: K2 ∧ x.label = .mu := by
  obtain ⟨H1, c, e, H2, h, p, b, hrun, htold⟩ := reunion_told
  obtain ⟨K1, y, K2, hK, hy, -⟩ := presence_grounded hrun htold
  exact ⟨_, _, _, _, _, _, _, _, _, hrun, htold, K1, y, K2, hK, hy⟩

theorem presence_converges_sample : ∃ H0 H h A m B b,
    HubRun lenientPlatform reunionMessages (H0 ++ H) h ∧ H = A ++ m :: B ∧
      Informed 1 alice b m.2 ∧ b = h.connected alice := by
  obtain ⟨H0, H, h, hrun, htimely, hloyal, hsettled, hhears, hopen, hchanges⟩ := reunion
  obtain ⟨A, m, B, b, hH, hm, -, hb, -⟩ :=
    presence_converges hrun htimely hloyal hsettled hhears hopen hchanges
  exact ⟨H0, H, h, A, m, B, b, hrun, hH, hm, hb⟩

end Dap
