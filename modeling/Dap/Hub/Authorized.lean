import Dap.Hub.Acts
import Dap.Hub.Fanout

/-! Whom channel messages reach, and whether the channel's ACL allows them. -/
namespace Dap
open Proc

variable {P : Platform} {c : ConnID}

/-- Every member of a channel is registered under a key that the channel's ACL allows. -/
def Hub.Vetted (P : Platform) (h : Hub) : Prop :=
  ∀ (name : String) (ch : Channel), h.channels[name]? = some ch → ∀ m ∈ ch.members,
    ∃ e, h.agents[m]? = some e ∧ ch.allows P e.pubkey = true

/-- The steps that leave somebody in a channel who is not allowed there: an ACL that leaves out a
member, the eviction of a member, the registration of a member under a key that is not on the ACL,
and the join of an agent that is not registered under one that is. -/
inductive Unvetted (P : Platform) : Option ConnID → Hub → Hub → Prop where
  | aclSet {h : Hub} {ch : Channel} {m : String} (name : String) (allowed : List String)
      (hch : h.channels[name]? = some ch) (hm : m ∈ ch.members)
      (hno : ∀ e, h.agents[m]? = some e →
        Channel.allows P { ch with allowed := allowed } e.pubkey = false) :
      Unvetted P none h (h.setACLLocked name allowed)
  | evicted {h : Hub} {name : String} {ch : Channel} (id : String)
      (hch : h.channels[name]? = some ch) (hm : id ∈ ch.members)
      (hout : (h.adminEvictLocked id).1 = .evicted) : Unvetted P none h (h.adminEvictLocked id).2
  | registered {h : Hub} {name : String} {ch : Channel} (c : ConnID)
      (hch : h.channels[name]? = some ch) (hm : (h.conns c).agentID ∈ ch.members)
      (hno : ch.allows P (h.conns c).pubkey = false) :
      Unvetted P (some c) h (h.registerLocked c).2
  | joined {h : Hub} (c : ConnID) (name chanPub : String)
      (hin : (h.joinLocked P c name chanPub).1.admitted)
      (hno : ∀ e, h.agents[(h.conns c).agentID]? = some e →
        Channel.allows P (h.channels[name]?.getD { name := name }) e.pubkey = false) :
      Unvetted P (some c) h (h.joinLocked P c name chanPub).2

/-! ### What the steps do to channels and keys -/

namespace Hub

theorem registerLocked_entry (h : Hub) (c : ConnID) :
    ∃ e : AgentEntry, (h.registerLocked c).2.agents = h.agents.insert (h.conns c).agentID e ∧
      e.pubkey = (h.conns c).pubkey := by
  have hq := Quiet.evictOther h c
  have hid : ((h.evictOther c).conns c).agentID = (h.conns c).agentID :=
    congrArg Identity.agentID (hq.identity c)
  refine ⟨(h.evictOther c).freshEntry c, ?_, congrArg Identity.pubkey (hq.identity c)⟩
  change (h.evictOther c).agents.insert ((h.evictOther c).conns c).agentID _ = _
  rw [hq.agents, hid]
  rfl

theorem adminEvictLocked_channels (h : Hub) (id : String) :
    (h.adminEvictLocked id).2.channels = h.channels := by
  unfold adminEvictLocked
  dsimp only
  split
  · rfl
  split
  · rfl
  split
  · split <;> rfl
  · rfl

theorem adminEvictLocked_agents (h : Hub) (id : String) :
    (h.adminEvictLocked id).1 = .evicted ∧
        (h.adminEvictLocked id).2.agents = h.agents.erase id ∨
      (h.adminEvictLocked id).1 ≠ .evicted ∧ (h.adminEvictLocked id).2.agents = h.agents := by
  unfold adminEvictLocked
  dsimp only
  split
  · exact .inr ⟨by simp, rfl⟩
  split
  · exact .inr ⟨by simp, rfl⟩
  split
  · split <;> exact .inl ⟨rfl, rfl⟩
  · exact .inl ⟨rfl, rfl⟩

end Hub

namespace Hub.Vetted

variable {h h' : Hub}

/-- Only the channels and the registered keys matter. -/
theorem frame (hv : h.Vetted P) (hc : h'.channels = h.channels)
    (ha : ∀ id : String, h'.agents[id]?.map AgentEntry.pubkey =
      h.agents[id]?.map AgentEntry.pubkey) :
    h'.Vetted P := by
  intro name ch hch m hm
  obtain ⟨e, he, hok⟩ := hv name ch (hc ▸ hch) m hm
  have hm' := ha m
  rw [he, Option.map_some, Option.map_eq_some_iff] at hm'
  obtain ⟨e', he', hkey⟩ := hm'
  exact ⟨e', he', hkey ▸ hok⟩

/-- A channel gets a member, and the others stay as they are. -/
theorem addMember (h0 : Hub) {name id : String} {ch : Channel} (hv : h.Vetted P)
    (hc : ∀ name', name ≠ name' → h0.channels[name']? = h.channels[name']?)
    (ha : h0.agents = h.agents)
    (hm : ∀ m, m ∈ ch.members ∨ id = m → ∃ e, h.agents[m]? = some e ∧ ch.allows P e.pubkey = true) :
    (h0.addMember name ch id).Vetted P := by
  intro name' ch' hch m hmem
  change (h0.channels.insert name _)[name']? = some ch' at hch
  change ∃ e, h0.agents[m]? = some e ∧ _
  rw [ha]
  rw [GoMap.getElem?_insert_ite] at hch
  split at hch
  next =>
    obtain rfl := Option.some.inj hch
    refine hm m ?_
    have hor : id = m ∨ m ∈ ch.members := by simpa using hmem
    exact hor.symm
  next hne => exact hv name' ch' (hc name' hne ▸ hch) m hmem

theorem joined (hv : h.Vetted P) (c : ConnID) (name chanPub : String)
    (hself : (h.joinLocked P c name chanPub).1.admitted →
      ∃ e, h.agents[(h.conns c).agentID]? = some e ∧
        Channel.allows P (h.channels[name]?.getD { name := name }) e.pubkey = true) :
    (h.joinLocked P c name chanPub).2.Vetted P := by
  rcases h.joinLocked_cases P c name chanPub with
    ⟨-, -, heq⟩ | ⟨hnone, -, peers, heq⟩ | ⟨ch, hch, -, rejoin, peers, heq⟩ | ⟨ch, -, -, heq⟩
  · rwa [heq]
  · obtain ⟨e, he, -⟩ := hself (by rw [heq]; trivial)
    rw [heq]
    refine hv.addMember (h.newChannelLocked name chanPub) ?_ rfl ?_
    · intro name' hne
      exact (GoMap.getElem?_insert_ite _ _ _ _).trans (if_neg hne)
    · intro m hm
      rcases hm with hm | rfl
      · simp at hm
      · exact ⟨e, he, rfl⟩
  · obtain ⟨e, he, hok⟩ := hself (by rw [heq]; trivial)
    rw [hch, Option.getD_some] at hok
    rw [heq]
    refine hv.addMember h (fun _ _ => rfl) rfl ?_
    intro m hm
    rcases hm with hm | rfl
    · exact hv name ch hch m hm
    · exact ⟨e, he, hok⟩
  · rwa [heq]

theorem step {who : Option ConnID} (hv : h.Vetted P) (hs : Step P who h h')
    (hu : ¬ Unvetted P who h h') : h'.Vetted P := by
  cases hs with
  | quiet hq => exact hv.frame hq.channels fun id => by rw [hq.agents]
  | opened d auth boundName hs => exact hv
  | greeted d f raw hs hv' hn => exact hv
  | registered d hs =>
    obtain ⟨e, hagents, hkey⟩ := h.registerLocked_entry d
    intro name ch hch m hm
    rw [(h.registerLocked_spec d).channels] at hch
    rw [hagents, GoMap.getElem?_insert_ite]
    split
    next hid =>
      refine ⟨e, rfl, ?_⟩
      by_contra hno
      exact hu (.registered d hch (hid ▸ hm) (by simpa [hkey] using hno))
    next => exact hv name ch hch m hm
  | touched d hs =>
    have hlook := h.getElem?_touchLastSeenLocked (h.conns d).agentID
    refine hv.frame (by rw [h.touchLastSeenLocked_frame]) fun id => ?_
    rw [hlook]
    cases h.agents[id]? with
    | none => rfl
    | some e => simp only [Option.map_some]; split <;> rfl
  | joined d name chanPub hs =>
    refine hv.joined d name chanPub fun hin => ?_
    by_contra hno
    refine hu (.joined d name chanPub hin fun e he => ?_)
    by_contra hok
    exact hno ⟨e, he, by simpa using hok⟩
  | enqueued d agentID f hs =>
    rw [Hub.enqueueLocked_frame]
    exact hv
  | drained d hs => exact hv
  | latched d key hs => exact hv
  | enrolled d op hash hs ha => exact hv
  | left d r hs hc hd =>
    obtain ⟨h1, rfl, ⟨-, rfl⟩ | ⟨-, e, he, rfl⟩⟩ := Hub.deregisterLocked_spec hd
    · exact hv
    · refine hv.frame rfl fun id => ?_
      dsimp only
      rw [GoMap.getElem?_insert_ite]
      split
      next hid => rw [← hid, he]; rfl
      next => rfl
  | evicted id =>
    intro name ch hch m hm
    rw [h.adminEvictLocked_channels] at hch
    rcases h.adminEvictLocked_agents id with ⟨hout, hagents⟩ | ⟨-, hagents⟩
    · rw [hagents, GoMap.getElem?_erase_ite, if_neg]
      · exact hv name ch hch m hm
      · rintro rfl
        exact hu (.evicted id hch hm hout)
    · rw [hagents]
      exact hv name ch hch m hm
  | aclSet name allowed =>
    intro name' ch' hch m hm
    change (h.channels.insert name _)[name']? = some ch' at hch
    rw [GoMap.getElem?_insert_ite] at hch
    split at hch
    next =>
      obtain rfl := Option.some.inj hch
      cases hold : h.channels[name]? with
      | none => simp [hold] at hm
      | some ch =>
        rw [hold, Option.getD_some] at hm
        by_contra hno
        refine hu (.aclSet name allowed hold hm fun e he => ?_)
        by_contra hok
        exact hno ⟨e, he, by simpa using hok⟩
    next => exact hv name' ch' hch m hm

end Hub.Vetted

/-- Each of these steps does leave somebody in a channel who is not allowed there. -/
theorem Unvetted.breaks {who : Option ConnID} {h h' : Hub} (hu : Unvetted P who h h') :
    ¬ h'.Vetted P := by
  intro hv
  cases hu with
  | @aclSet _ ch m name allowed hch hm hno =>
    have hset : (h.setACLLocked name allowed).channels[name]? =
        some { ch with allowed := allowed } := by
      change (h.channels.insert name _)[name]? = _
      rw [GoMap.getElem?_insert_ite, if_pos rfl, hch]
      rfl
    obtain ⟨e, he, hok⟩ := hv name _ hset m hm
    rw [hno e he] at hok
    exact Bool.noConfusion hok
  | @evicted _ name ch id hch hm hout =>
    obtain ⟨e, he, -⟩ := hv name ch (by rw [h.adminEvictLocked_channels]; exact hch) id hm
    rcases h.adminEvictLocked_agents id with ⟨-, hagents⟩ | ⟨hne, -⟩
    · rw [hagents, GoMap.getElem?_erase_ite, if_pos rfl] at he
      exact absurd he (by simp)
    · exact hne hout
  | @registered _ name ch d hch hm hno =>
    obtain ⟨e, hagents, hkey⟩ := h.registerLocked_entry d
    rw [← (h.registerLocked_spec d).channels] at hch
    obtain ⟨e', he', hok⟩ := hv name ch hch _ hm
    rw [hagents, GoMap.getElem?_insert_ite, if_pos rfl] at he'
    obtain rfl := Option.some.inj he'
    rw [hkey, hno] at hok
    exact Bool.noConfusion hok
  | joined d name chanPub hin hno =>
    have hjoined : ∀ ch : Channel, ∀ h0 : Hub, h0.agents = h.agents →
        (h.channels[name]?.getD { name := name }).allowed = ch.allowed →
        ¬ (h0.addMember name ch (h.conns d).agentID).Vetted P := by
      intro ch h0 ha hch hv'
      have hset : (h0.addMember name ch (h.conns d).agentID).channels[name]? =
          some { ch with members := ch.members.insert (h.conns d).agentID true } :=
        (GoMap.getElem?_insert_ite _ _ _ _).trans (if_pos rfl)
      obtain ⟨e, he, hok⟩ := hv' name _ hset (h.conns d).agentID (by simp)
      change h0.agents[(h.conns d).agentID]? = some e at he
      rw [ha] at he
      have hfalse := hno e he
      unfold Channel.allows at hfalse hok
      rw [hch] at hfalse
      rw [hfalse] at hok
      exact Bool.noConfusion hok
    rcases h.joinLocked_cases P d name chanPub with
      ⟨-, -, heq⟩ | ⟨hnone, -, peers, heq⟩ | ⟨ch, hch, -, rejoin, peers, heq⟩ | ⟨ch, -, -, heq⟩
    · rw [heq] at hin
      exact hin
    · rw [heq] at hv
      exact hjoined _ (h.newChannelLocked name chanPub) rfl (by rw [hnone]; rfl) hv
    · rw [heq] at hv
      exact hjoined ch h rfl (by rw [hch]; rfl) hv
    · rw [heq] at hin
      exact hin

/-- Starting as a new process does, with nobody in any channel, the hub takes steps none of which
leaves somebody in a channel who is not allowed there. -/
inductive VettedRun (P : Platform) : Hub → Prop where
  | fresh {h} (hf : h.Fresh) (hempty : ∀ (name : String) (ch : Channel),
      h.channels[name]? = some ch → ch.members = ∅) : VettedRun P h
  | step {h h' who} (hr : VettedRun P h) (hs : Step P who h h') (hu : ¬ Unvetted P who h h') :
      VettedRun P h'

/-- A step that keeps everybody vetted is not one of them. -/
theorem VettedRun.step_of_vetted {h h' : Hub} {who : Option ConnID} (hr : VettedRun P h)
    (hs : Step P who h h') (hv : h'.Vetted P) : VettedRun P h' :=
  hr.step hs fun hu => hu.breaks hv

theorem VettedRun.vetted {h : Hub} (hr : VettedRun P h) : h.Vetted P := by
  induction hr with
  | fresh hf hempty =>
    intro name ch hch m hm
    rw [hempty name ch hch] at hm
    simp at hm
  | step _ hs hu ih => exact ih.step hs hu

/-- What the others may have done in such a run between two sections of `c`. -/
def VettedOthers (P : Platform) (c : ConnID) : Hub → Hub → Prop :=
  Relation.ReflTransGen fun h h' =>
    ∃ who, who ≠ some c ∧ Step P who h h' ∧ ¬ Unvetted P who h h'

theorem VettedOthers.vetted {h h' : Hub} (ho : VettedOthers P c h h') (hv : h.Vetted P) :
    h'.Vetted P := by
  induction ho with
  | refl => exact hv
  | tail _ hs ih =>
    obtain ⟨who, -, hstep, hu⟩ := hs
    exact ih.step hstep hu

/-- Sends, wherever they go: the registry, the connection map and the channels stay. -/
def routing : Scope where
  writes _ := True
  sends _ _ := True
  stores _ _ := True
  does e := e.post.agents = e.pre.agents ∧ e.post.clients = e.pre.clients ∧
    e.post.channels = e.pre.channels

/-- The sections of a send see nobody in a channel who is not allowed there. -/
theorem handleSend_vetted (f : Frame) (raw : Raw) :
    HubTriple (VettedOthers P c) (fun past s => s.Vetted P ∧ ∀ e ∈ past, e.pre.Vetted P)
      (handleSend P c f raw) fun _ past s => s.Vetted P ∧ ∀ e ∈ past, e.pre.Vetted P := by
  have hacts : Emits (Act c routing) (handleSend P c f raw) :=
    Act.handleSend (S := routing) (fun _ => ⟨trivial, fun _ => trivial⟩)
      (fun _ _ => ⟨rfl, rfl, rfl⟩) (fun _ _ _ _ => ⟨rfl, rfl, rfl⟩)
      (fun _ _ => trivial) (fun _ _ => trivial) raw
  refine (hacts (VettedOthers P c) _ ?_ ?_).mono_guarantee fun _ _ _ => trivial
  · exact fun past s s' ho hs => ⟨ho.vetted hs.1, hs.2⟩
  · rintro past e he ⟨hv, hpast⟩
    obtain ⟨hagents, -, hchannels⟩ := he.registry fun _ ht => ht
    refine ⟨hv.frame hchannels fun id => by rw [hagents], fun x hx => ?_⟩
    rcases List.mem_append.mp hx with hx | hx
    · exact hpast x hx
    · rwa [List.mem_singleton.mp hx]

theorem reaches_cases {g : Frame} {m : String} {conn : Option ConnID} {x : HubSection}
    (h : reaches g m conn x = true) :
    reaches g m none x = true ∨ ∃ d, conn = some d ∧ ∀ m', reaches g m' (some d) x = true := by
  unfold reaches at h ⊢
  split at h
  next d r hl =>
    obtain ⟨hconn, hrest⟩ := of_decide_eq_true h
    exact .inr ⟨d, hconn, fun m' => decide_eq_true ⟨rfl, hrest⟩⟩
  next id r hl => exact .inl h
  next => exact Bool.noConfusion h

/-- Whatever is delivered is taken only where the targets say. -/
theorem Tally.reached {g g' : Frame} {h : Hub} {ch : Channel} {t : List HubSection}
    (ht : Tally g ((h.targets ch).online.map Prod.snd) (h.targets ch).offline t) {x : HubSection}
    (hx : x ∈ t) {m : String} {conn : Option ConnID} (hreach : reaches g' m conn x = true) :
    ∃ m' ∈ ch.members, reaches g' m' h.clients[m']? x = true := by
  obtain rfl : g' = g := ht.only x hx g' m conn hreach
  obtain ⟨n, hle, hsome, hnone, -⟩ := ht.counts
  rcases reaches_cases hreach with hmail | ⟨d, rfl, hpush⟩
  · have hpos : 0 < t.countP (reaches g' m none) := List.countP_pos_iff.mpr ⟨x, hx, hmail⟩
    rw [hnone, List.count_pos_iff] at hpos
    obtain ⟨hkey, hoff⟩ := List.mem_filter.mp hpos
    refine ⟨m, Std.ExtTreeMap.mem_keys.mp hkey, ?_⟩
    rw [Option.isNone_iff_eq_none.mp hoff]
    exact hmail
  · obtain ⟨other, hother⟩ := Infinite.exists_notMem_finset (h.targets ch).offline.toFinset
    have hpos : 0 < t.countP (reaches g' other (some d)) :=
      List.countP_pos_iff.mpr ⟨x, hx, hpush other⟩
    have hzero : (h.targets ch).offline.count other = 0 :=
      List.count_eq_zero.mpr fun hmem => hother (List.mem_toFinset.mpr hmem)
    rw [hsome, hzero] at hpos
    have hcount := hle d
    obtain ⟨m', hm', hmap⟩ := h.online_mem ch (List.count_pos_iff.mp (by omega : 0 <
      ((h.targets ch).online.map Prod.snd).count d))
    refine ⟨m', hm', ?_⟩
    rw [hmap]
    exact hpush m'

/-- In a run without such steps, whatever an accepted channel message delivers is taken only to
members that are registered under a key which the channel's ACL allows when the message is
routed. -/
theorem channel_recipients_allowed {h : Hub} (hr : VettedRun P h) (f : Frame) (raw : Raw)
    (hto : f.to = "")
    {script : List (Beat Hub)} (hrely : Relies (VettedOthers P c) script) {w : World Hub Label}
    (hrun : handleSend P c f raw { state := h, script := script } = some ((), w))
    (hacc : Accepted w.trace) :
    ∃ e ∈ w.trace, e.label = .targets ∧ ∃ ch, e.pre.channels[f.channel]? = some ch ∧
      ∀ x ∈ w.trace, ∀ (g : Frame) (m : String) (conn : Option ConnID), reaches g m conn x = true →
        ∃ m' ∈ ch.members, reaches g m' e.pre.clients[m']? x = true ∧
          ∃ entry, e.pre.agents[m']? = some entry ∧ ch.allows P entry.pubkey = true := by
  obtain ⟨t, ht, hq⟩ := records_handleSend_channel P c f raw hto _ () w hrun
  obtain rfl : w.trace = t := by simpa using ht
  rcases hq with ⟨-, own, -, -, e, he, hl, ch, hch, htally⟩ | hrefused
  · have hseen := (handleSend_vetted f raw _ () w hrun hrely ⟨hr.vetted, by simp⟩).1
    refine ⟨e, he, hl, ch, hch, fun x hx g m conn hreach => ?_⟩
    obtain ⟨m', hm', hreach'⟩ := htally.reached hx hreach
    exact ⟨m', hm', hreach', hseen.2 e he f.channel ch hch m' hm'⟩
  · exact absurd hacc hrefused.not_accepted

theorem Hub.admitted_channels (h : Hub) (c : ConnID) (auth : AuthKind) (boundName : String)
    (f : Frame) : (h.admitted P c auth boundName f).channels = h.channels :=
  (registerLocked_spec _ c).channels

theorem VettedRun.admitted {h : Hub} (hr : VettedRun P h) (hempty : h.channels = ∅) {c : ConnID}
    {f : Frame} {raw : Raw} (hs : (h.conns c).stage = .absent)
    (hv : verifySignature P f raw f.pubkey = none) :
    VettedRun P (h.admitted P c .master "" f) := by
  have hnobody : ∀ h' : Hub, h'.channels = h.channels → h'.Vetted P := by
    intro h' heq name ch hch
    rw [heq, hempty] at hch
    simp at hch
  have h1 : VettedRun P (h.openConn c .master "") :=
    hr.step_of_vetted (.opened c .master "" hs) (hnobody _ rfl)
  have h2 : VettedRun P ((h.openConn c .master "").updConn c fun k => k.authenticated P f) := by
    refine h1.step_of_vetted (.greeted c f raw ?_ hv ?_) (hnobody _ rfl) <;>
      simp [Hub.openConn, Hub.updConn_conns_self]
  refine h2.step_of_vetted (.registered c ?_) (hnobody _ ?_)
  · rw [Hub.updConn_conns_self]
    rfl
  · exact (Hub.registerLocked_spec _ c).channels

theorem VettedRun.joined {h : Hub} (hr : VettedRun P h) (hs : (h.conns c).stage = .serving)
    (name chanPub : String) (hself : (h.agents[(h.conns c).agentID]?).any fun e =>
      Channel.allows P (h.channels[name]?.getD { name := name }) e.pubkey) :
    VettedRun P (h.joinLocked P c name chanPub).2 := by
  refine hr.step_of_vetted (.joined c name chanPub hs) (hr.vetted.joined c name chanPub fun _ => ?_)
  exact (Option.any_eq_true _ _).mp hself

theorem roomOfTwo_vetted : VettedRun lenientPlatform roomOfTwo := by
  have hpeer : verifySignature lenientPlatform peerHello [] peerHello.pubkey = none := by
    decide +kernel
  have h0 : VettedRun lenientPlatform {} :=
    .fresh ⟨rfl, rfl, rfl, rfl, rfl, rfl, fun _ => rfl⟩ fun name ch hch => by simp at hch
  have h1 : VettedRun lenientPlatform twoAgents :=
    (h0.admitted rfl rfl (sampleHello_verifies 0 [])).admitted (Hub.admitted_channels ..)
      (by decide +kernel) hpeer
  exact (h1.joined (by decide +kernel) "room" "" (by decide +kernel)).joined (by decide +kernel)
    "room" "" (by decide +kernel)

theorem channel_recipients_allowed_sample :
    ∃ w, handleSend lenientPlatform 0 sampleChannelSend [] { state := roomOfTwo } = some ((), w) ∧
      ∃ e ∈ w.trace, e.label = .targets ∧ ∃ ch, e.pre.channels["room"]? = some ch ∧
        ∀ x ∈ w.trace, ∀ (g : Frame) (m : String) (conn : Option ConnID),
          reaches g m conn x = true →
          ∃ m' ∈ ch.members, reaches g m' e.pre.clients[m']? x = true ∧
            ∃ entry, e.pre.agents[m']? = some entry ∧
              ch.allows lenientPlatform entry.pubkey = true := by
  have hrun : ((handleSend lenientPlatform 0 sampleChannelSend [] { state := roomOfTwo }).map
      fun r => decide (Accepted r.2.trace)) = some true := by decide +kernel
  obtain ⟨⟨_, w⟩, hw, hacc⟩ := Option.map_eq_some_iff.mp hrun
  exact ⟨w, hw, channel_recipients_allowed roomOfTwo_vetted sampleChannelSend [] rfl
    (fun _ hb => by simp at hb) hw (of_decide_eq_true hacc)⟩

/-- The room after its ACL was set to the first agent alone. -/
def narrowedRoom : Hub := roomOfTwo.setACLLocked "room" [(sampleHello 0).pubkey]

theorem excluded_member_reached :
    Reachable lenientPlatform narrowedRoom ∧
      ∃ w, handleSend lenientPlatform 0 sampleChannelSend [] { state := narrowedRoom } =
          some ((), w) ∧ Accepted w.trace ∧
        ∃ e ∈ w.trace, e.label = .targets ∧ ∃ ch, e.pre.channels["room"]? = some ch ∧
          ∃ m ∈ ch.members,
            (∃ x ∈ w.trace, reaches (channelMsg (narrowedRoom.conns 0).agentID sampleChannelSend) m
              e.pre.clients[m]? x = true) ∧
            ∃ entry, e.pre.agents[m]? = some entry ∧
              ch.allows lenientPlatform entry.pubkey = false := by
  refine ⟨roomOfTwo_reachable.step (.aclSet _ _), ?_⟩
  have hrun : ((handleSend lenientPlatform 0 sampleChannelSend [] { state := narrowedRoom }).map
      fun r => decide (Accepted r.2.trace) && r.2.trace.any fun e => decide (e.label = .targets) &&
        (e.pre.channels["room"]?).any fun ch => ch.members.keys.any fun m =>
          (r.2.trace.any fun x => reaches
            (channelMsg (narrowedRoom.conns 0).agentID sampleChannelSend) m e.pre.clients[m]? x) &&
            (e.pre.agents[m]?).any fun entry => !ch.allows lenientPlatform entry.pubkey) =
      some true := by decide +kernel
  obtain ⟨⟨_, w⟩, hw, hbool⟩ := Option.map_eq_some_iff.mp hrun
  dsimp only at hbool
  rw [Bool.and_eq_true] at hbool
  obtain ⟨e, he, hrest⟩ := List.any_eq_true.mp hbool.2
  rw [Bool.and_eq_true] at hrest
  obtain ⟨ch, hch, hany⟩ := (Option.any_eq_true _ _).mp hrest.2
  obtain ⟨m, hm, hboth⟩ := List.any_eq_true.mp hany
  rw [Bool.and_eq_true] at hboth
  obtain ⟨entry, hentry, hno⟩ := (Option.any_eq_true _ _).mp hboth.2
  exact ⟨w, hw, of_decide_eq_true hbool.1, e, he, of_decide_eq_true hrest.1, ch, hch, m,
    Std.ExtTreeMap.mem_keys.mp hm, List.any_eq_true.mp hboth.1, entry, hentry, by simpa using hno⟩

end Dap
