import Dap.Hub.Goroutine

/-! What the frames of one connection can change. -/
namespace Dap
open Proc

variable {P : Platform} {c : ConnID}

/-- The key that signed the hello of the connection names the agent `id`. -/
def Conn.SignedAs (P : Platform) (k : Conn) (id : String) : Prop :=
  k.authed = true ∧ k.agentID = id ∧ ∃ (f : Frame) (raw : Raw),
    verifySignature P f raw f.pubkey = none ∧ k.pubkey = f.pubkey ∧ id = helloAgentID P f.pubkey

/-- The part of a channel that decides who may join it and read it. -/
def Channel.guard (ch : Channel) : String × List String := (ch.pubkey, ch.allowed)

/-- Between `h` and `h'` an enrolled agent on `c` has changed no secret, no channel beyond its
members, and no registry entry but its own. -/
structure Confined (P : Platform) (c : ConnID) (h h' : Hub) : Prop where
  secrets : h'.secrets = h.secrets
  channels : ∀ name : String, h'.channels[name]?.map Channel.guard =
    h.channels[name]?.map Channel.guard
  agents : ∀ id : String, h'.agents[id]? ≠ h.agents[id]? → (h'.conns c).SignedAs P id

/-- The entry of `id` is as it was, or carries the name `n`. -/
def Named (n id : String) (h h' : Hub) : Prop :=
  h'.agents[id]? = h.agents[id]? ∨ ∃ e, h'.agents[id]? = some e ∧ e.name = n

/-- The entry of `id` is as it was but for its `lastSeen`. -/
def Stamped (id : String) (h h' : Hub) : Prop :=
  ∃ e t, h.agents[id]? = some e ∧ h'.agents[id]? = some { e with lastSeen := t }

theorem SameStore.confined {h h' : Hub} (hs : SameStore h h') : Confined P c h h' where
  secrets := hs.secrets
  channels name := by rw [hs.channels]
  agents id hne := absurd (by rw [hs.agents]) hne

theorem SameStore.named {h h' : Hub} (hs : SameStore h h') (n id : String) : Named n id h h' :=
  .inl (by rw [hs.agents])

theorem Coherent.signedAs {h : Hub} (hi : Coherent P h) (ha : (h.conns c).authed = true) :
    (h.conns c).SignedAs P (h.conns c).agentID := by
  obtain ⟨f, raw, hv, hpub, hid⟩ := (hi.sound c).signed ha
  exact ⟨ha, rfl, f, raw, hv, hpub, hid⟩

theorem Hub.joinLocked_channels {h : Hub} {name chanPub : String}
    (ha : (h.conns c).auth ≠ .master) (name' : String) :
    (h.joinLocked P c name chanPub).2.channels[name']?.map Channel.guard =
      h.channels[name']?.map Channel.guard := by
  unfold joinLocked
  dsimp only
  split
  next => rw [if_pos ha]
  next ch hch =>
    split
    · simp only [addMember]
      rw [GoMap.getElem?_insert_ite]
      split
      next hname => simp [← hname, hch, Channel.guard]
      next => rfl
    · rfl

namespace Step

variable {h h' : Hub}

/-- Before its hello is accepted a connection changes nothing that is stored. -/
theorem sameStore_of_unauthed (hi : Coherent P h) (hs : Step P (some c) h h')
    (ha : (h.conns c).authed = false) : SameStore h h' := by
  have hsound := hi.sound c
  have hserving : (h.conns c).stage ≠ .serving := by
    intro hst
    have hauth := hsound.late (.inr hst)
    exact absurd (hauth.symm.trans ha) (by simp)
  have hempty : (h.conns c).agentID = "" := hsound.anonymous ha
  cases hs with
  | quiet hq => exact hq.toSameStore
  | opened _ auth boundName hs => constructor <;> rfl
  | greeted _ f raw hs hv hn => constructor <;> rfl
  | registered _ hs =>
    have hauth := hsound.late (.inl hs)
    exact absurd (hauth.symm.trans ha) (by simp)
  | touched _ hs =>
    have hsame : h.touchLastSeenLocked (h.conns c).agentID = h := by
      unfold Hub.touchLastSeenLocked
      rw [hempty, hi.registry]
    rw [hsame]
    constructor <;> rfl
  | joined _ name chanPub hs => exact absurd hs hserving
  | enqueued _ agentID f hs => exact absurd hs hserving
  | drained _ hs => exact absurd hs hserving
  | latched _ key hs => exact absurd hs hserving
  | enrolled _ op hash hs hm => exact absurd hs hserving
  | left _ r hs hc hd =>
    obtain ⟨h1, rfl, ⟨-, rfl⟩ | ⟨hmap, -⟩⟩ := Hub.deregisterLocked_spec hd
    · constructor <;> rfl
    · exact absurd (hi.client _ c hmap).1 hserving

/-- Once authenticated a connection stays the agent it is. -/
theorem signedAs (hi : Coherent P h) (hs : Step P (some c) h h') {id : String}
    (hid : (h.conns c).SignedAs P id) : (h'.conns c).SignedAs P id := by
  obtain ⟨ha, hag, f, raw, hv, hpub, hfid⟩ := hid
  suffices hfields : (h'.who c).authed = (h.who c).authed ∧
      (h'.who c).agentID = (h.who c).agentID ∧ (h'.who c).pubkey = (h.who c).pubkey by
    obtain ⟨h1, h2, h3⟩ := hfields
    exact ⟨h1.trans ha, h2.trans hag, f, raw, hv, h3.trans hpub, hfid⟩
  have hearly : (h.conns c).stage = .absent ∨ (h.conns c).stage = .reading → False := by
    intro hst
    have hno := (hi.sound c).early hst
    exact absurd (ha.symm.trans hno) (by simp)
  cases hs with
  | quiet hq => rw [show h'.who c = h.who c from hq.identity c]; exact ⟨rfl, rfl, rfl⟩
  | opened _ auth boundName hs => exact (hearly (.inl hs)).elim
  | greeted _ f raw hs hv hn => exact (hearly (.inr hs)).elim
  | registered _ hs => rw [(h.registerLocked_spec c).self]; exact ⟨rfl, rfl, rfl⟩
  | touched _ hs => rw [h.touchLastSeenLocked_frame]; exact ⟨rfl, rfl, rfl⟩
  | joined _ name chanPub hs => rw [Hub.joinLocked_frame]; exact ⟨rfl, rfl, rfl⟩
  | enqueued _ agentID f hs => rw [Hub.enqueueLocked_frame]; exact ⟨rfl, rfl, rfl⟩
  | drained _ hs => exact ⟨rfl, rfl, rfl⟩
  | latched _ key hs => exact ⟨rfl, rfl, rfl⟩
  | enrolled _ op hash hs hm => exact ⟨rfl, rfl, rfl⟩
  | left _ r hs hc hd =>
    unfold Hub.who
    rw [Hub.deregisterLocked_conns hd, h.updConn_conns_self]
    exact ⟨rfl, rfl, rfl⟩

/-- A step of an authenticated enrolled agent changes one entry at most: its own. -/
theorem confined (hi : Coherent P h) (hs : Step P (some c) h h')
    (ha : (h.conns c).auth = .agent) : Confined P c h h' := by
  by_cases hauthed : (h.conns c).authed = true
  · have hid := hi.signedAs hauthed
    have hid' := signedAs hi hs hid
    have hm : (h.conns c).auth ≠ .master := by
      rw [ha]
      decide
    have hown : (∀ id : String, id ≠ (h.conns c).agentID → h'.agents[id]? = h.agents[id]?) →
        ∀ id : String, h'.agents[id]? ≠ h.agents[id]? → (h'.conns c).SignedAs P id := by
      intro hothers id hne
      by_cases heq : id = (h.conns c).agentID
      · exact heq ▸ hid'
      · exact absurd (hothers id heq) hne
    cases hs with
    | quiet hq => exact hq.toSameStore.confined
    | opened _ auth boundName hs => exact SameStore.confined (by constructor <;> rfl)
    | greeted _ f raw hs hv hn => exact SameStore.confined (by constructor <;> rfl)
    | registered _ hs =>
      have hr := h.registerLocked_spec c
      obtain ⟨e, hagents, -⟩ := hr.agents
      refine ⟨hr.secrets, fun name => by rw [hr.channels], hown fun id hne => ?_⟩
      rw [hagents, GoMap.getElem?_insert_ite]
      exact if_neg (Ne.symm hne)
    | touched _ hs =>
      have hlook := h.getElem?_touchLastSeenLocked (h.conns c).agentID
      rw [h.touchLastSeenLocked_frame] at hown ⊢
      refine ⟨rfl, fun _ => rfl, hown fun id hne => ?_⟩
      exact (hlook id).trans (by simp [Ne.symm hne])
    | joined _ name chanPub hs =>
      have hch : ∀ other : String, (h.joinLocked P c name chanPub).2.channels[other]?.map
          Channel.guard = h.channels[other]?.map Channel.guard := Hub.joinLocked_channels hm
      rw [Hub.joinLocked_frame] at hown ⊢
      exact ⟨rfl, hch, hown fun _ _ => rfl⟩
    | enqueued _ agentID f hs =>
      rw [Hub.enqueueLocked_frame] at hown ⊢
      exact ⟨rfl, fun _ => rfl, hown fun _ _ => rfl⟩
    | drained _ hs => exact ⟨rfl, fun _ => rfl, hown fun _ _ => rfl⟩
    | latched _ key hs => exact ⟨rfl, fun _ => rfl, hown fun _ _ => rfl⟩
    | enrolled _ op hash hs hmaster => exact absurd hmaster hm
    | left _ r hs hc hd =>
      obtain ⟨h1, rfl, ⟨-, rfl⟩ | ⟨-, e, -, rfl⟩⟩ := Hub.deregisterLocked_spec hd
      · exact SameStore.confined (by constructor <;> rfl)
      · refine ⟨rfl, fun _ => rfl, hown fun id hne => ?_⟩
        exact (GoMap.getElem?_insert_ite _ _ _ _).trans (if_neg (Ne.symm hne))
  · exact (sameStore_of_unauthed hi hs (by simpa using hauthed)).confined

/-- A step that changes the entry of an enrolled agent leaves its enrolled name there; once the
connection has been dropped, only the time may change. -/
theorem named (hi : Coherent P h) (hs : Step P (some c) h h') (ha : (h.conns c).auth = .agent) :
    Named (h.conns c).boundName (h.conns c).agentID h h' ∨
      (h.conns c).closed = true ∧ Stamped (h.conns c).agentID h h' := by
  by_cases hauthed : (h.conns c).authed = true
  · have hname : (h.conns c).name = (h.conns c).boundName := (hi.sound c).bound hauthed ha
    cases hs with
    | quiet hq => exact .inl (hq.toSameStore.named _ _)
    | opened _ auth boundName hs => exact .inl (.inl rfl)
    | greeted _ f raw hs hv hn => exact .inl (.inl rfl)
    | registered _ hs =>
      obtain ⟨e, hagents, -, he⟩ := (h.registerLocked_spec c).agents
      refine .inl (.inr ⟨e, ?_, he.trans hname⟩)
      rw [hagents, GoMap.getElem?_insert_ite]
      exact if_pos rfl
    | touched _ hs =>
      have hserving : (h.conns c).stage = .serving := by
        rcases hs with hs | hs
        · have hno := (hi.sound c).early (.inr hs)
          exact absurd (hauthed.symm.trans hno) (by simp)
        · exact hs
      have hlook := h.getElem?_touchLastSeenLocked (h.conns c).agentID (h.conns c).agentID
      simp only [if_true] at hlook
      by_cases hmap : h.clients[(h.conns c).agentID]? = some c
      · obtain ⟨-, -, e, he, -, hen⟩ := hi.client _ c hmap
        rw [he] at hlook
        exact .inl (.inr ⟨_, hlook, hen.trans hname⟩)
      · cases he : h.agents[(h.conns c).agentID]? with
        | none =>
          rw [he] at hlook
          exact .inl (.inl (hlook.trans he.symm))
        | some e =>
          rw [he] at hlook
          exact .inr ⟨hi.replaced c hserving hmap, e, h.nowMS, he, hlook⟩
    | joined _ name chanPub hs =>
      rw [Hub.joinLocked_frame]
      exact .inl (.inl rfl)
    | enqueued _ agentID f hs =>
      rw [Hub.enqueueLocked_frame]
      exact .inl (.inl rfl)
    | drained _ hs => exact .inl (.inl rfl)
    | latched _ key hs => exact .inl (.inl rfl)
    | enrolled _ op hash hs hmaster => exact .inl (.inl rfl)
    | left _ r hs hc hd =>
      obtain ⟨h1, rfl, ⟨-, rfl⟩ | ⟨hmap, e, he, rfl⟩⟩ := Hub.deregisterLocked_spec hd
      · exact .inl (.inl rfl)
      · obtain ⟨-, -, e', he', -, hen⟩ := hi.client _ c hmap
        obtain rfl := Option.some.inj (he.symm.trans he')
        refine .inl (.inr ⟨{ e with online := false, lastSeen := h.nowMS }, ?_, hen.trans hname⟩)
        exact (GoMap.getElem?_insert_ite _ _ _ _).trans (if_pos rfl)
  · exact .inl ((sameStore_of_unauthed hi hs (by simpa using hauthed)).named _ _)

/-- How a connection was upgraded never changes, and a hello is never forgotten. -/
theorem constant (hs : Step P (some c) h h')
    (ho : (h.conns c).stage ≠ .absent) :
    (h'.conns c).stage ≠ .absent ∧ (h'.conns c).auth = (h.conns c).auth ∧
      (h'.conns c).boundName = (h.conns c).boundName ∧
      ((h'.conns c).authed = false → (h.conns c).authed = false) := by
  suffices hw : (h'.who c).stage ≠ .absent ∧ (h'.who c).auth = (h.who c).auth ∧
      (h'.who c).boundName = (h.who c).boundName ∧
      ((h'.who c).authed = false → (h.who c).authed = false) from hw
  cases hs with
  | quiet hq => rw [show h'.who c = h.who c from hq.identity c]; exact ⟨ho, rfl, rfl, id⟩
  | opened _ auth boundName hs => exact absurd hs ho
  | greeted _ f raw hs hv hn =>
    simp [Hub.who, Conn.identity, Conn.authenticated]
  | registered _ hs =>
    rw [(h.registerLocked_spec c).self]
    exact ⟨by simp, rfl, rfl, id⟩
  | touched _ hs => rw [h.touchLastSeenLocked_frame]; exact ⟨ho, rfl, rfl, id⟩
  | joined _ name chanPub hs => rw [Hub.joinLocked_frame]; exact ⟨ho, rfl, rfl, id⟩
  | enqueued _ agentID f hs => rw [Hub.enqueueLocked_frame]; exact ⟨ho, rfl, rfl, id⟩
  | drained _ hs => exact ⟨ho, rfl, rfl, id⟩
  | latched _ key hs => exact ⟨ho, rfl, rfl, id⟩
  | enrolled _ op hash hs hm => exact ⟨ho, rfl, rfl, id⟩
  | left _ r hs hc hd =>
    unfold Hub.who
    rw [Hub.deregisterLocked_conns hd, h.updConn_conns_self]
    simp [Conn.identity]

/-- A connection comes to serve by registering. -/
theorem serving (hs : Step P (some c) h h') (ho : (h.conns c).stage ≠ .absent)
    (hserving : (h'.conns c).stage = .serving) :
    (h.conns c).stage = .serving ∨
      (h.conns c).stage = .greeted ∧ h' = (h.registerLocked c).2 := by
  change (h'.who c).stage = .serving at hserving
  cases hs with
  | quiet hq => exact .inl ((congrArg Identity.stage (hq.identity c)).symm.trans hserving)
  | opened _ auth boundName hs => exact absurd hs ho
  | greeted _ f raw hs hv hn => simp [Hub.who, Conn.identity, Conn.authenticated] at hserving
  | registered _ hs => exact .inr ⟨hs, rfl⟩
  | touched _ hs => rw [h.touchLastSeenLocked_frame] at hserving; exact .inl hserving
  | joined _ name chanPub hs => exact .inl hs
  | enqueued _ agentID f hs => exact .inl hs
  | drained _ hs => exact .inl hs
  | latched _ key hs => exact .inl hs
  | enrolled _ op hash hs hm => exact .inl hs
  | left _ r hs hc hd =>
    unfold Hub.who at hserving
    rw [Hub.deregisterLocked_conns hd, h.updConn_conns_self] at hserving
    simp [Conn.identity] at hserving

end Step

/-! ### Whole runs -/

theorem Confined.trans {h1 h2 h3 : Hub} (h12 : Confined P c h1 h2) (h23 : Confined P c h2 h3)
    (hid : ∀ id, (h2.conns c).SignedAs P id → (h3.conns c).SignedAs P id) :
    Confined P c h1 h3 where
  secrets := h23.secrets.trans h12.secrets
  channels name := (h23.channels name).trans (h12.channels name)
  agents id hne := by
    by_cases h2e : h3.agents[id]? = h2.agents[id]?
    · exact hid id (h12.agents id fun h1e => hne (h2e.trans h1e))
    · exact h23.agents id h2e

/-- What has become of `h0` when only `c` has acted. -/
structure Since (P : Platform) (c : ConnID) (h0 h : Hub) : Prop where
  reachable : Reachable P h
  opened : (h.conns c).stage ≠ .absent
  auth : (h.conns c).auth = (h0.conns c).auth
  boundName : (h.conns c).boundName = (h0.conns c).boundName
  sameStore : (h.conns c).authed = false → SameStore h0 h
  confined : (h.conns c).auth = .agent → Confined P c h0 h
  named : (h.conns c).auth = .agent → (h.conns c).stage = .serving →
    ∃ e, h.agents[(h.conns c).agentID]? = some e ∧ e.name = (h.conns c).boundName

namespace Since

variable {h0 h h' : Hub}

theorem start (hr : Reachable P h) (hs : (h.conns c).stage.alive)
    (hc : (h.conns c).closed = false) : Since P c h h where
  reachable := hr
  opened := by rcases hs with hs | hs <;> simp [hs]
  auth := rfl
  boundName := rfl
  sameStore _ := by constructor <;> rfl
  confined _ := SameStore.confined (by constructor <;> rfl)
  named hagent hserving := by
    have hi := Coherent.reachable hr
    have hmap : h.clients[(h.conns c).agentID]? = some c := by
      by_contra hne
      exact absurd (hi.replaced c hserving hne) (by simp [hc])
    obtain ⟨-, -, e, he, -, hname⟩ := hi.client _ c hmap
    exact ⟨e, he, hname.trans ((hi.sound c).bound ((hi.sound c).late (.inr hserving)) hagent)⟩

theorem step (hsince : Since P c h0 h) (hs : Step P (some c) h h') : Since P c h0 h' := by
  have hi := Coherent.reachable hsince.reachable
  have hr' := hsince.reachable.step hs
  have hi' := Coherent.reachable hr'
  obtain ⟨hstage', hauth', hbound', hearly⟩ :
      (h'.conns c).stage ≠ .absent ∧ (h'.conns c).auth = (h.conns c).auth ∧
      (h'.conns c).boundName = (h.conns c).boundName ∧
      ((h'.conns c).authed = false → (h.conns c).authed = false) := hs.constant hsince.opened
  refine ⟨hr', hstage', hauth'.trans hsince.auth, hbound'.trans hsince.boundName, ?_, ?_, ?_⟩
  · intro ha
    exact (hsince.sameStore (hearly ha)).trans (hs.sameStore_of_unauthed hi (hearly ha))
  · intro hagent
    rw [hauth'] at hagent
    exact (hsince.confined hagent).trans (hs.confined hi hagent)
      fun id hid => hs.signedAs hi hid
  · intro hagent hserving
    rw [hauth'] at hagent
    rw [hbound']
    rcases hs.serving hsince.opened hserving with hst | ⟨hst, rfl⟩
    · obtain ⟨e, he, hname⟩ := hsince.named hagent hst
      have hid := (hs.signedAs hi (hi.signedAs ((hi.sound c).late (.inr hst)))).2.1
      rw [hid]
      rcases hs.named hi hagent with (hsame | hnamed) | ⟨-, e', t, he', ht⟩
      · exact ⟨e, hsame.trans he, hname⟩
      · exact hnamed
      · obtain rfl := Option.some.inj (he.symm.trans he')
        exact ⟨_, ht, hname⟩
    · obtain ⟨-, hid, e, he, -, hname⟩ := hi'.client (h.conns c).agentID c (by
        rw [(h.registerLocked_spec c).clients, GoMap.getElem?_insert_ite]
        exact if_pos rfl)
      have hbound := (hi'.sound c).bound ((hi'.sound c).late (.inr hserving)) (hauth'.trans hagent)
      have hid' : ((h.registerLocked c).2.conns c).agentID = (h.conns c).agentID := hid
      rw [hid']
      exact ⟨e, he, (hname.trans hbound).trans hbound'⟩

theorem surroundings (P : Platform) (c : ConnID) (h0 : Hub) :
    Surroundings P c (fun _ _ => False) (Since P c h0) where
  stable _ _ hR := hR.elim
  identity _ _ hR := hR.elim
  closed _ _ hR := hR.elim
  step _ _ hsince hs := hsince.step hs
  coherent _ hsince := .reachable hsince.reachable

end Since

private theorem readLoop_closed {h : Hub} (hc : (h.conns c).closed = true)
    (messages : List Message) {w : World Hub Label}
    (hrun : alone (readLoop P c messages) h = some ((), w)) : w.state = h := by
  cases messages with
  | nil =>
    obtain rfl : ({ state := h } : World Hub Label) = w := by
      simpa [alone, readLoop, pure] using hrun
    rfl
  | cons m rest =>
    unfold readLoop alone at hrun
    simp only [Proc.read, Proc.atomically, Proc.guarded, await, bind, Option.map_some,
      Option.bind_some, hc, pure] at hrun
    obtain ⟨-, rfl⟩ : () = () ∧ _ = w := by simpa using hrun
    rfl

theorem Since.of_run {h : Hub} (hr : Reachable P h) (hs : (h.conns c).stage.alive)
    (hc : (h.conns c).closed = false) {messages : List Message} {w : World Hub Label}
    (hrun : alone (readLoop P c messages) h = some ((), w)) :
    Since P c h w.state ∧ (w.state.conns c).stage.alive := by
  have hsat := readLoop_spec (P := P) (Since.surroundings P c h) messages
  exact (hsat { state := h } () w hrun (fun _ hb => by simp at hb) ⟨.start hr hs hc, hs⟩).1

/-- Before its hello is accepted a connection changes nothing that is stored, and an enrolled agent
changes no secret, no channel and no entry but its own, which then carries the enrolled name. Both
hold of each section among any acts of the others, where a frame still in flight when the connection
is dropped may only stamp the entry; and of the run as a whole when nobody interferes. -/
theorem privilege_confined {h : Hub} (hr : Reachable P h) (hs : (h.conns c).stage.alive)
    (messages : List Message) :
    (∀ (script : List (Beat Hub)) (w : World Hub Label), Relies (Others P c) script →
      readLoop P c messages { state := h, script := script } = some ((), w) → ∀ e ∈ w.trace,
        ((e.pre.conns c).authed = false → SameStore e.pre e.post) ∧
        ((e.pre.conns c).auth = .agent → Confined P c e.pre e.post ∧
          (Named (e.pre.conns c).boundName (e.pre.conns c).agentID e.pre e.post ∨
            (e.pre.conns c).closed = true ∧ Stamped (e.pre.conns c).agentID e.pre e.post))) ∧
    (∀ w : World Hub Label, alone (readLoop P c messages) h = some ((), w) →
      ((w.state.conns c).authed = false → SameStore h w.state) ∧
      ((h.conns c).auth = .agent → Confined P c h w.state ∧
        Named (h.conns c).boundName (w.state.conns c).agentID h w.state)) := by
  constructor
  · intro script w hrely hrun e he
    have hsat := readLoop_spec (P := P) (surroundings_reachable P c) messages
    obtain ⟨-, -, t, ht, hown⟩ := hsat _ () w hrun hrely ⟨hr, hs⟩
    obtain ⟨hpre, hstep⟩ := hown e (by simpa [ht] using he)
    have hi := Coherent.reachable hpre
    exact ⟨hstep.sameStore_of_unauthed hi, fun ha => ⟨hstep.confined hi ha, hstep.named hi ha⟩⟩
  · intro w hrun
    by_cases hc : (h.conns c).closed = true
    · have hsame : SameStore h w.state := by
        rw [readLoop_closed hc messages hrun]
        constructor <;> rfl
      exact ⟨fun _ => hsame, fun _ => ⟨hsame.confined, hsame.named _ _⟩⟩
    · obtain ⟨hsince, hend⟩ := Since.of_run hr hs (by simpa using hc) hrun
      refine ⟨hsince.sameStore, fun ha => ?_⟩
      have ha' := hsince.auth.trans ha
      refine ⟨hsince.confined ha', ?_⟩
      rcases hend with hst | hst
      · have hno := ((Coherent.reachable hsince.reachable).sound c).early (.inr hst)
        exact (hsince.sameStore hno).named _ _
      · obtain ⟨e, he, hname⟩ := hsince.named ha' hst
        exact .inr ⟨e, he, hname.trans hsince.boundName⟩

/-- The same key under another name. -/
def renamedHello : Frame := { sampleHello 0 with name := "mallory" }

/-- The agent comes back on connection 1, under the other name, and a second passes. -/
def comesBack (h : Hub) : Hub :=
  if (h.conns 1).stage = .absent then
    let h := h.admitted lenientPlatform 1 .master "" renamedHello
    { h with clock := h.clock + 1000000000 }
  else h

theorem others_comesBack (h : Hub) : Others lenientPlatform 0 h (comesBack h) := by
  unfold comesBack
  split
  next hs =>
    have hv : verifySignature lenientPlatform renamedHello [] renamedHello.pubkey = none := by
      decide +kernel
    exact .head ⟨some 1, by simp, .opened 1 .master "" hs⟩
      (.head ⟨some 1, by simp, .greeted 1 renamedHello [] (by simp [Hub.openConn]) hv
        (by simp [Hub.openConn])⟩
      (.head ⟨some 1, by simp, .registered 1 (by simp [Conn.authenticated])⟩
      (.single ⟨none, by simp, .quiet (.of_conns (by constructor <;> rfl) rfl)⟩)))
  next => exact .refl

/-- An agent on connection 0, upgraded with a secret issued to it. -/
def enrolledAlice : Hub := ({} : Hub).admitted lenientPlatform 0 .agent "alice" (sampleHello 0)

/-- Alice comes back just before the frame in flight touches her entry. -/
def overtaken : List (Beat Hub) := [⟨id, true⟩, ⟨id, true⟩, ⟨id, true⟩, ⟨comesBack, true⟩]

theorem enrolledAlice_reachable : Reachable lenientPlatform enrolledAlice :=
  Reachable.empty.admitted rfl (sampleHello_verifies 0 []) fun _ => rfl

def flushOnly : List Message := [.text (Bytes.utf8 "\x7b\"op\":\"flush\"\x7d".toList)]

theorem relies_overtaken : Relies (Others lenientPlatform 0) overtaken :=
  Relies.once (fun _ => .refl) 3 others_comesBack

theorem overtaken_unnamed : ∃ w : World Hub Label, readLoop lenientPlatform 0 flushOnly
    { state := enrolledAlice, script := overtaken } = some ((), w) ∧
      ∃ e ∈ w.trace, (e.pre.conns 0).auth = .agent ∧ (e.pre.conns 0).boundName = "alice" ∧
        ¬ Named "alice" (e.pre.conns 0).agentID e.pre e.post := by
  have hrun : ((readLoop lenientPlatform 0 flushOnly
      { state := enrolledAlice, script := overtaken }).map fun r =>
        r.2.trace.any fun e => (decide ((e.pre.conns 0).auth = .agent) &&
          decide ((e.pre.conns 0).boundName = "alice")) &&
          (e.post.agents[(e.pre.conns 0).agentID]?).any fun entry =>
            decide (entry.name ≠ "alice") && (e.pre.agents[(e.pre.conns 0).agentID]?).any
              fun old => old.lastSeen ≠ entry.lastSeen) = some true := by decide +kernel
  obtain ⟨⟨_, w⟩, hw, hany⟩ := Option.map_eq_some_iff.mp hrun
  obtain ⟨e, he, hentry⟩ := List.any_eq_true.mp hany
  rw [Bool.and_eq_true, Bool.and_eq_true] at hentry
  obtain ⟨⟨hauth, hbound⟩, hentry⟩ := hentry
  obtain ⟨entry, hpost, hboth⟩ := (Option.any_eq_true _ _).mp hentry
  rw [Bool.and_eq_true] at hboth
  obtain ⟨old, hpre, hseen⟩ := (Option.any_eq_true _ _).mp hboth.2
  refine ⟨w, hw, e, he, of_decide_eq_true hauth, of_decide_eq_true hbound, ?_⟩
  rintro (hsame | ⟨entry', hpost', hname⟩)
  · rw [hpost, hpre] at hsame
    exact of_decide_eq_true hseen (congrArg AgentEntry.lastSeen (Option.some.inj hsame).symm)
  · obtain rfl := Option.some.inj (hpost.symm.trans hpost')
    exact of_decide_eq_true hboth.1 hname

/-- Alone the enrolled agent leaves its entry under its name; overtaken, it stamps the entry. -/
theorem privilege_confined_sample :
    (∃ w : World Hub Label, alone (readLoop lenientPlatform 0 flushOnly) enrolledAlice =
        some ((), w) ∧ Confined lenientPlatform 0 enrolledAlice w.state ∧
      Named "alice" (w.state.conns 0).agentID enrolledAlice w.state) ∧
    ∃ w : World Hub Label, readLoop lenientPlatform 0 flushOnly
        { state := enrolledAlice, script := overtaken } = some ((), w) ∧
      ∃ e ∈ w.trace, (e.pre.conns 0).closed = true ∧
        Stamped (e.pre.conns 0).agentID e.pre e.post := by
  constructor
  · have hrun : (alone (readLoop lenientPlatform 0 flushOnly) enrolledAlice).isSome := by
      decide +kernel
    obtain ⟨⟨_, w⟩, hw⟩ := Option.isSome_iff_exists.mp hrun
    exact ⟨w, hw, ((privilege_confined enrolledAlice_reachable (.inr rfl) _).2 w hw).2 rfl⟩
  · obtain ⟨w, hw, e, he, hauth, hbound, hnot⟩ := overtaken_unnamed
    obtain ⟨-, hconfined⟩ := (privilege_confined enrolledAlice_reachable (.inr rfl) _).1 _ w
      relies_overtaken hw e he
    rw [← hbound] at hnot
    exact ⟨w, hw, e, he, (hconfined hauth).2.resolve_left hnot⟩

/-- A frame in flight on an evicted connection stamps an entry that carries another name. -/
theorem stamps_other_name :
    Reachable lenientPlatform enrolledAlice ∧ (enrolledAlice.conns 0).auth = .agent ∧
      (enrolledAlice.conns 0).boundName = "alice" ∧ Relies (Others lenientPlatform 0) overtaken ∧
      ∃ w : World Hub Label, readLoop lenientPlatform 0 flushOnly
          { state := enrolledAlice, script := overtaken } = some ((), w) ∧
        ∃ e ∈ w.trace, ¬ Named "alice" (e.pre.conns 0).agentID e.pre e.post := by
  obtain ⟨w, hw, e, he, -, -, hnot⟩ := overtaken_unnamed
  exact ⟨enrolledAlice_reachable, rfl, rfl, relies_overtaken, w, hw, e, he, hnot⟩

end Dap
