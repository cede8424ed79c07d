import Dap.Hub.Eviction

/-! What a read loop tells of agents: the presence frames that it queues, against the critical
sections they rest on (`hub/relay.go`, `hub/presence.go`). -/
namespace Dap
open Proc

variable {P : Platform} {c d p : ConnID} {id : String} {b : Bool}

/-- The reply tells of the agent whether it is online. -/
def Tells (id : String) (online : Bool) (r : Reply) : Prop :=
  ∃ f, r = .frame f ∧ f.op = "presence" ∧ ∃ i ∈ f.agents, i.agentID = id ∧ i.online = online

/-- The section puts the reply in the queue of the connection. -/
def Queues (p : ConnID) (r : Reply) (e : HubSection) : Prop :=
  e.label = .select p r ∧ (e.post.conns p).send = (e.pre.conns p).send ++ [r]

/-- The agent holds a connection. -/
def Hub.connected (h : Hub) (id : String) : Bool := h.clients.contains id

/-- The agent comes online or goes offline. -/
def Flips (id : String) (e : HubSection) : Prop := e.post.connected id ≠ e.pre.connected id

/-- The critical section lets `c` announce its agent: a registration or a join as online, a
deregistration as offline. -/
inductive Announces (P : Platform) (c : ConnID) (e : HubSection) : Bool → Prop where
  | registered (hpost : e.post = (e.pre.registerLocked c).2) : Announces P c e true
  | joined (name chanPub created rejoin peers)
      (hj : e.pre.joinLocked P c name chanPub = (.joined created rejoin peers, e.post)) :
      Announces P c e true
  | left (ptr peers) (hd : e.pre.deregisterLocked c = some (some (ptr, peers), e.post)) :
      Announces P c e false

/-! ### What a read loop announces -/

/-- The frame announces the agent of `c`, as it was read after the critical section, to one of the
peers that the section found. -/
def Rests (P : Platform) (c p : ConnID) (f : Frame) (e own : HubSection) : Prop :=
  own.label = .own c ∧ p ∈ e.post.presencePeersLocked (e.pre.conns c).agentID ∧
    ∃ a : AgentEntry, f = presenceBroadcast (own.pre.conns c).agentID a ∧ Announces P c e a.online

/-- The frame is the answer to a query of `c`. -/
def Answers (c p : ConnID) (f : Frame) (e : HubSection) : Prop :=
  p = c ∧ e.post = e.pre ∧ ∃ replyTo, f = presenceAnswer replyTo e.pre.presenceList

/-- No critical section of the registry. -/
def Unlocked (t : List HubSection) : Prop := ∀ e ∈ t, e.label ≠ .mu

/-- What is behind a presence frame among the sections before it: the last critical section is the
one it announces or answers, or the frame comes out of a mailbox. -/
def Behind (P : Platform) (c p : ConnID) (f : Frame) (t : List HubSection) : Prop :=
  (∃ u e own v, t = u ++ e :: own :: v ∧ e.label = .mu ∧ Unlocked v ∧ Rests P c p f e own) ∨
    (∃ u e v, t = u ++ e :: v ∧ e.label = .mu ∧ Unlocked v ∧ Answers c p f e) ∨
    ∃ e ∈ t, ∃ id : String, f ∈ e.pre.mailbox[id]?.getD []

/-- The connection is closed, or gets a frame that tells of the agent. -/
def Reaches (p : ConnID) (id : String) (b : Bool) (e : HubSection) : Prop :=
  (∃ r, Queues p r e ∧ Tells id b r) ∨ (e.pre.conns p).closed = true ∨
    (e.post.conns p).closed = true

/-- The goroutine is done with what it did: it takes up the next frame, or traces its end. -/
def Finishes (c : ConnID) (e : HubSection) : Prop :=
  e.label = .receive c ∨ (e.label = .log ∧ ∃ kvs, e.post = e.pre.logged "ws_close" kvs)

/-- There is something behind every presence frame, and who comes online or goes offline is
announced to all the peers that the section found before anything else is done. -/
structure Informs (P : Platform) (c : ConnID) (t : List HubSection) : Prop where
  behind : ∀ t1 e t2 p f, t = t1 ++ e :: t2 → e.label = .select p (.frame f) →
    f.op = "presence" → Behind P c p f t1
  told : ∀ t1 e t2 id, t = t1 ++ e :: t2 → Flips id e → (e.pre.conns c).agentID = id ∧
    Announces P c e (e.post.connected id) ∧ ∀ p ∈ e.post.presencePeersLocked id,
      ∃ own u x v, t2 = own :: (u ++ x :: v) ∧ own.label = .own c ∧
        Reaches p (own.pre.conns c).agentID (e.post.connected id) x ∧
        ∀ z ∈ own :: (u ++ [x]), ¬ Finishes c z

theorem Behind.append {f : Frame} {t : List HubSection} (h : Behind P c p f t)
    (t' : List HubSection) : Behind P c p f (t' ++ t) := by
  rcases h with ⟨u, e, own, v, rfl, hrest⟩ | ⟨u, e, v, rfl, hrest⟩ | ⟨e, he, hmail⟩
  · exact .inl ⟨t' ++ u, e, own, v, by simp, hrest⟩
  · exact .inr (.inl ⟨t' ++ u, e, v, by simp, hrest⟩)
  · exact .inr (.inr ⟨e, List.mem_append_right _ he, hmail⟩)

theorem Informs.append {t t' : List HubSection} (h : Informs P c t) (h' : Informs P c t') :
    Informs P c (t ++ t') := by
  constructor
  · intro t1 e t2 p f heq hl hop
    rcases append_cut heq with ⟨r, rfl, hr⟩ | ⟨r, hr, -⟩
    · exact (h'.behind r e t2 p f hr hl hop).append t
    · exact h.behind t1 e r p f hr hl hop
  · intro t1 e t2 id heq hf
    rcases append_cut heq with ⟨r, rfl, hr⟩ | ⟨r, hr, rfl⟩
    · exact h'.told r e t2 id hr hf
    · obtain ⟨hid, hann, hp⟩ := h.told t1 e r id hr hf
      refine ⟨hid, hann, fun p hmem => ?_⟩
      obtain ⟨own, u, x, v, rfl, hrest⟩ := hp p hmem
      exact ⟨own, u, x, v ++ t', by simp, hrest⟩

/-- The section queues no presence frame, and nobody comes online or goes offline. -/
def Mute (e : HubSection) : Prop :=
  (∀ p f, e.label = .select p (.frame f) → f.op ≠ "presence") ∧ e.post.clients = e.pre.clients

theorem Mute.not_flips {e : HubSection} (h : Mute e) (id : String) : ¬ Flips id e := by
  intro hf
  apply hf
  unfold Hub.connected
  rw [h.2]

theorem Informs.of_mute {t : List HubSection} (h : ∀ e ∈ t, Mute e) : Informs P c t := by
  constructor
  · rintro t1 e t2 p f rfl hl hop
    exact absurd hop ((h e (by simp)).1 p f hl)
  · rintro t1 e t2 id rfl hf
    exact absurd hf ((h e (by simp)).not_flips id)

/-! ### Announcing -/

/-- A section in the midst of sending these frames. -/
structure Passing (c : ConnID) (frames : ConnID → Frame → Prop) (e : HubSection) : Prop where
  unlocked : e.label ≠ .mu
  clients : e.post.clients = e.pre.clients
  goes : ¬ Finishes c e
  queues : ∀ p f, e.label = .select p (.frame f) → frames p f

/-- The frames of an announcement to the peers. -/
def Announcement (peers : List ConnID) (id : String) (b : Bool) (p : ConnID) (f : Frame) : Prop :=
  p ∈ peers ∧ ∃ a : AgentEntry, f = presenceBroadcast id a ∧ a.online = b

theorem Passing.of_label {frames : ConnID → Frame → Prop} {e : HubSection} (hm : e.label ≠ .mu)
    (hr : e.label ≠ .receive c) (hl : e.label ≠ .log) (hc : e.post.clients = e.pre.clients)
    (hs : ∀ p f, e.label ≠ .select p (.frame f)) : Passing c frames e where
  unlocked := hm
  clients := hc
  goes h := h.elim hr fun h => hl h.1
  queues p f h := absurd h (hs p f)

/-- A critical section, the agent read after it, and its announcement. -/
theorem Informs.announced {e own : HubSection} {t : List HubSection} {peers : List ConnID}
    (he : e.label = .mu) (hown : own.label = .own c) (hquiet : own.post.clients = own.pre.clients)
    (ht : ∀ x ∈ t, Passing c (Announcement peers (own.pre.conns c).agentID b) x)
    (hreach : ∀ p ∈ peers, ∃ x ∈ t, Reaches p (own.pre.conns c).agentID b x)
    (hann : Announces P c e b) (hpeers : peers = e.post.presencePeersLocked
      (e.pre.conns c).agentID) (hflips : ∀ id, Flips id e → (e.pre.conns c).agentID = id ∧
        e.post.connected id = b) : Informs P c (e :: own :: t) := by
  have hgoes : ¬ Finishes c own := by
    rintro (hl | ⟨hl, -⟩)
    · exact Label.noConfusion (hown.symm.trans hl)
    · exact Label.noConfusion (hown.symm.trans hl)
  constructor
  · intro t1 x t2 p f heq hl hop
    rcases t1 with _ | ⟨y, _ | ⟨z, t1⟩⟩
    · obtain ⟨rfl, -⟩ := List.cons.inj heq
      exact Label.noConfusion (he.symm.trans hl)
    · obtain ⟨rfl, hrest⟩ := List.cons.inj heq
      obtain ⟨rfl, -⟩ := List.cons.inj hrest
      exact Label.noConfusion (hown.symm.trans hl)
    · obtain ⟨rfl, hrest⟩ := List.cons.inj heq
      obtain ⟨rfl, ht2⟩ := List.cons.inj hrest
      change t = t1 ++ x :: t2 at ht2
      subst ht2
      obtain ⟨hp, a, rfl, rfl⟩ := (ht x (by simp)).queues p f hl
      refine .inl ⟨[], e, own, t1, rfl, he, fun z hz => ?_, hown, hpeers ▸ hp, a, rfl, hann⟩
      exact (ht z (List.mem_append_left _ hz)).unlocked
  · intro t1 x t2 id heq hf
    rcases t1 with _ | ⟨y, _ | ⟨z, t1⟩⟩
    · obtain ⟨rfl, hrest⟩ := List.cons.inj heq
      obtain ⟨hid, hb⟩ := hflips id hf
      refine ⟨hid, hb.symm ▸ hann, fun p hp => ?_⟩
      rw [← hid, ← hpeers] at hp
      obtain ⟨x, hx, hxp⟩ := hreach p hp
      obtain ⟨u, v, rfl⟩ := List.append_of_mem hx
      refine ⟨own, u, x, v, hrest.symm, hown, hb.symm ▸ hxp, fun z hz => ?_⟩
      rcases List.mem_cons.mp hz with rfl | hz
      · exact hgoes
      · refine (ht z ?_).goes
        rw [← List.singleton_append, ← List.append_assoc]
        exact List.mem_append_left _ hz
    · obtain ⟨rfl, hrest⟩ := List.cons.inj heq
      obtain ⟨rfl, -⟩ := List.cons.inj hrest
      exact absurd hf fun h => h (by unfold Hub.connected; rw [hquiet])
    · obtain ⟨rfl, hrest⟩ := List.cons.inj heq
      obtain ⟨rfl, ht2⟩ := List.cons.inj hrest
      change t = t1 ++ x :: t2 at ht2
      subst ht2
      exact absurd hf fun h => h (by unfold Hub.connected; rw [(ht x (by simp)).clients])

section Programs

variable {α β : Type}

variable {frames : ConnID → Frame → Prop}

theorem passing_sendFrame {f : Frame} (hf : frames p f) :
    Emits (Passing c frames) (sendFrame p (.frame f)) := by
  have hrelease : Emits (Passing c frames) (release p (.frame f)) :=
    Emits.modify fun _ _ => .of_label Label.noConfusion Label.noConfusion Label.noConfusion rfl
      fun _ _ => Label.noConfusion
  unfold sendFrame
  refine Emits.bind (Emits.read fun _ _ => .of_label Label.noConfusion Label.noConfusion
    Label.noConfusion rfl fun _ _ => Label.noConfusion) fun queued => ?_
  split
  · refine Emits.bind (Emits.modify fun s pick => ?_) fun _ => ?_
    · refine ⟨Label.noConfusion, rfl, ?_, fun _ _ => Label.noConfusion⟩
      rintro (hl | ⟨-, kvs, hlog⟩)
      · exact Label.noConfusion hl
      · have hlast := congrArg (fun h : Hub => h.log.getLast?.map Prod.fst) hlog
        simp [Hub.logged] at hlast
    refine Emits.bind (Emits.modify fun _ _ => .of_label Label.noConfusion Label.noConfusion
      Label.noConfusion rfl fun _ _ => Label.noConfusion) fun _ => ?_
    refine Emits.bind (Emits.modify fun _ _ => .of_label Label.noConfusion Label.noConfusion
      Label.noConfusion rfl fun _ _ => Label.noConfusion) fun _ => ?_
    exact Emits.pure _
  · refine Emits.bind (Emits.modify fun _ _ => .of_label Label.noConfusion Label.noConfusion
      Label.noConfusion rfl fun _ _ => Label.noConfusion) fun _ => ?_
    refine Emits.bind (Emits.read fun _ _ => .of_label Label.noConfusion Label.noConfusion
      Label.noConfusion rfl fun _ _ => Label.noConfusion) fun closed => ?_
    split
    · exact Emits.bind hrelease fun _ => Emits.pure _
    · refine Emits.bind (Emits.guarded fun pick s ok s' hs => ?_) fun pushed => ?_
      · refine ⟨Label.noConfusion, ?_, fun h => ?_, fun q g hl => ?_⟩
        · rcases Act.trySend_cases hs with ⟨-, rfl⟩ | rfl
          · rfl
          · rfl
        · rcases h with hl | ⟨hl, -⟩
          · exact Label.noConfusion hl
          · exact Label.noConfusion hl
        · obtain ⟨rfl, hr⟩ := Label.select.inj hl
          obtain rfl := Reply.frame.inj hr
          exact hf
      · split
        · exact Emits.pure _
        · exact Emits.bind hrelease fun _ => Emits.pure _

/-- Whoever gets no frame is closed. -/
def Handed (p : ConnID) (r : Reply) (e : HubSection) : Prop :=
  Queues p r e ∨ (e.pre.conns p).closed = true ∨ (e.post.conns p).closed = true

theorem trySend_handed {r : Reply} {pick ok : Bool} {s s' : Hub}
    (h : trySend p r pick s = some (ok, s')) : Handed p r ⟨.select p r, s, s', pick⟩ := by
  unfold trySend at h
  dsimp only at h
  split at h
  · obtain ⟨-, rfl⟩ : true = ok ∧ _ = s' := by simpa using h
    exact .inl ⟨rfl, by simp⟩
  · split at h
    next hclosed => exact .inr (.inl hclosed)
    next => simp at h

theorem handed_sendFrame (p : ConnID) (r : Reply) :
    Records (sendFrame p r) fun _ t => ∃ e ∈ t, Handed p r e := by
  unfold sendFrame
  refine Records.bind (Q := fun _ _ => True) (Records.read fun _ _ => trivial) fun queued t1 _ => ?_
  split
  · refine Records.bind (Q := fun _ _ => True) (Records.modify fun _ _ => trivial) fun _ t2 _ => ?_
    refine Records.bind (Q := fun _ _ => True) (Records.modify fun _ _ => trivial) fun _ t3 _ => ?_
    refine Records.bind (Q := fun _ t => ∃ e ∈ t, Handed p r e)
      (Records.modify fun s pick => ⟨_, List.mem_singleton_self _, .inr (.inr ?_)⟩) ?_
    · exact s.closed_dropped p
    · rintro - t4 ⟨e, he, hh⟩
      exact Records.pure ⟨e, by simp [he], hh⟩
  · refine Records.bind (Q := fun _ _ => True) (Records.modify fun _ _ => trivial) fun _ t2 _ => ?_
    refine Records.bind (Q := fun closed t => closed = true → ∃ e ∈ t, Handed p r e)
      (Records.read fun _ _ hclosed => ⟨_, List.mem_singleton_self _, .inr (.inl hclosed)⟩) ?_
    intro closed t3 h3
    split
    next hclosed =>
      obtain ⟨e, he, hh⟩ := h3 hclosed
      refine Records.bind (records_release p r) fun _ t4 _ => Records.pure ⟨e, by simp [he], hh⟩
    next =>
      refine Records.bind (Q := fun _ t => ∃ e ∈ t, Handed p r e)
        (Records.guarded fun _ _ _ _ hf => ⟨_, List.mem_singleton_self _, trySend_handed hf⟩) ?_
      rintro pushed t4 ⟨e, he, hh⟩
      split
      · exact Records.pure ⟨e, by simp [he], hh⟩
      · exact Records.bind (records_release p r) fun _ t5 _ => Records.pure ⟨e, by simp [he], hh⟩

/-- What an announcement to the peers records. -/
def Announced (c : ConnID) (peers : List ConnID) (id : String) (b : Bool)
    (t : List HubSection) : Prop :=
  (∀ x ∈ t, Passing c (Announcement peers id b) x) ∧ ∀ p ∈ peers, ∃ x ∈ t, Reaches p id b x

theorem announced_sendPresence (c : ConnID) (peers : List ConnID) (id : String) (a : AgentEntry) :
    Records (sendPresence peers id a) fun _ t => Announced c peers id a.online t := by
  unfold sendPresence
  split
  next hnone =>
    rw [List.isEmpty_iff.mp hnone]
    exact Records.pure ⟨fun x hx => absurd hx List.not_mem_nil, fun p hp =>
      absurd hp List.not_mem_nil⟩
  next =>
    refine Records.bind (Q := fun _ t => ∀ x ∈ t, Passing c (Announcement peers id a.online) x)
      (Records.read fun s pick x hx => ?_) fun now t1 h1 => ?_
    · obtain rfl := List.mem_singleton.mp hx
      exact .of_label Label.noConfusion Label.noConfusion Label.noConfusion rfl
        fun _ _ => Label.noConfusion
    have hloop : ∀ rest : List ConnID, (∀ p ∈ rest, p ∈ peers) →
        Records (rest.forM fun p => do
          let _ ← sendFrame p (.frame (presenceBroadcast id { a with lastSeen := now })))
          fun _ t => (∀ x ∈ t, Passing c (Announcement peers id a.online) x) ∧
            ∀ p ∈ rest, ∃ x ∈ t, Reaches p id a.online x := by
      intro rest
      induction rest with
      | nil =>
        exact fun _ => Records.pure ⟨fun x hx => absurd hx List.not_mem_nil, fun p hp =>
          absurd hp List.not_mem_nil⟩
      | cons p rest ih =>
        intro hrest
        have hbody : Records (do
            let _ ← sendFrame p (.frame (presenceBroadcast id { a with lastSeen := now })))
            fun (_ : PUnit) t => (∀ x ∈ t, Passing c (Announcement peers id a.online) x) ∧
              ∃ x ∈ t, Reaches p id a.online x := by
          have hframe : Announcement peers id a.online p
              (presenceBroadcast id { a with lastSeen := now }) :=
            ⟨hrest p List.mem_cons_self, _, rfl, rfl⟩
          refine Records.bind
            ((Records.of_emits (passing_sendFrame (c := c) hframe)).and (handed_sendFrame p _)) ?_
          rintro ok t ⟨hpass, x, hx, hh⟩
          refine Records.pure ⟨by simpa using hpass, x, by simpa using hx, ?_⟩
          rcases hh with hq | hclosed
          · exact .inl ⟨_, hq, _, rfl, rfl, _, List.mem_singleton_self _, rfl, rfl⟩
          · exact .inr hclosed
        refine Records.bind hbody fun _ t ht => (ih fun q hq =>
          hrest q (List.mem_cons_of_mem _ hq)).mono fun _ t' ht' => ⟨fun x hx => ?_, fun q hq => ?_⟩
        · rcases List.mem_append.mp hx with hx | hx
          · exact ht.1 x hx
          · exact ht'.1 x hx
        · rcases List.mem_cons.mp hq with rfl | hq
          · obtain ⟨x, hx, hxq⟩ := ht.2
            exact ⟨x, List.mem_append_left _ hx, hxq⟩
          · obtain ⟨x, hx, hxq⟩ := ht'.2 q hq
            exact ⟨x, List.mem_append_right _ hx, hxq⟩
    refine (hloop peers fun _ hp => hp).mono fun _ t ht => ⟨fun x hx => ?_, fun p hp => ?_⟩
    · rcases List.mem_append.mp hx with hx | hx
      · exact h1 x hx
      · exact ht.1 x hx
    · obtain ⟨x, hx, hxp⟩ := ht.2 p hp
      exact ⟨x, List.mem_append_right _ hx, hxp⟩

/-- The entry is read before anything is sent. -/
theorem announced_readEntry (c : ConnID) (ptr : EntryPtr) (peers : List ConnID) (id : String) :
    Records (do
      let e ← readEntry ptr
      sendPresence peers id { e with online := b }) fun _ t => Announced c peers id b t := by
  have hread : Emits (Passing c (Announcement peers id b)) (readEntry ptr) := by
    have hfield : ∀ f : Hub → String, Emits (Passing c (Announcement peers id b))
        (Proc.read .entry f) := fun f =>
      Emits.read fun _ _ => .of_label Label.noConfusion Label.noConfusion Label.noConfusion rfl
        fun _ _ => Label.noConfusion
    exact Emits.bind (hfield _) fun _ => Emits.bind (hfield _) fun _ =>
      Emits.bind (hfield _) fun _ => Emits.pure _
  refine Records.bind (Records.of_emits hread) fun e t ht =>
    (announced_sendPresence c peers id { e with online := b }).mono fun _ t' ht' => ⟨?_, ?_⟩
  · intro x hx
    rcases List.mem_append.mp hx with hx | hx
    · exact ht x hx
    · exact ht'.1 x hx
  · intro p hp
    obtain ⟨x, hx, hxp⟩ := ht'.2 p hp
    exact ⟨x, List.mem_append_right _ hx, hxp⟩

/-! ### The programs -/

/-- Every run of the program informs. -/
def Informing (P : Platform) (c : ConnID) (p : HubProc α) : Prop :=
  Records p fun _ t => Informs P c t

theorem Informing.bind {p : HubProc α} {k : α → HubProc β} (hp : Informing P c p)
    (hk : ∀ a, Informing P c (k a)) : Informing P c (p >>= k) :=
  Records.bind hp fun a _ ht => (hk a).mono fun _ _ ht' => ht.append ht'

theorem Informing.pure (a : α) : Informing P c (Pure.pure a : HubProc α) :=
  Records.pure (.of_mute fun _ he => by cases he)

/-- What a connection may do without saying who is there. -/
def muted (P : Platform) (c : ConnID) : Scope where
  writes := OwnWrite P
  sends _ r := ∀ f, r = .frame f → f.op ≠ "presence"
  stores _ _ := True
  does e := Task P c e ∧ e.post.clients = e.pre.clients

theorem muted_refuses (code : String) : (muted P c).Refuses c code := by
  refine ⟨.code code, ?_⟩
  rintro msg f hf
  rw [← Reply.frame.inj hf]
  change "error" ≠ "presence"
  decide

theorem Act.mute {e : HubSection} (he : Act c (muted P c) e) : Mute e := by
  have hother : ∀ {label : Label} {s s' : Hub} {pick : Bool},
      (∀ p f, label ≠ .select p (.frame f)) → s'.clients = s.clients →
      Mute ⟨label, s, s', pick⟩ := fun hl hc => ⟨fun p f h => absurd h (hl p f), hc⟩
  have hselect : ∀ {s s' : Hub} {pick : Bool} {d r}, (muted P c).sends d r →
      s'.clients = s.clients → Mute ⟨.select d r, s, s', pick⟩ :=
    fun hr hc => ⟨fun p f hl => hr f (Label.select.inj hl).2, hc⟩
  cases he with
  | observed hl =>
    refine hother (fun p f h => ?_) rfl
    subst h
    exact Bool.noConfusion hl
  | pushed hr hroom => exact hselect hr rfl
  | missed hr => exact hselect hr rfl
  | @stored s pick id f hf =>
    refine hother (fun _ _ => Label.noConfusion) ?_
    rw [Hub.enqueueLocked_frame]
  | other he =>
    refine ⟨fun p f hl => ?_, he.2⟩
    have ht := he.1
    cases ht <;> exact Label.noConfusion hl
  | _ => exact hother (fun _ _ => Label.noConfusion) rfl

theorem Informing.of_emits {p : HubProc α} (hp : Emits (Act c (muted P c)) p) : Informing P c p :=
  (Records.of_emits hp).mono fun _ _ ht => Informs.of_mute fun e he => (ht e he).mute

theorem Informs.announcement {s s' : Hub} {pick pick' : Bool} {peers : List ConnID} {post : Hub}
    {t : List HubSection} (ht : Announced c peers (s'.conns c).agentID b t)
    (hann : Announces P c ⟨.mu, s, post, pick⟩ b)
    (hpeers : peers = post.presencePeersLocked (s.conns c).agentID)
    (hflips : ∀ id, post.connected id ≠ s.connected id →
      (s.conns c).agentID = id ∧ post.connected id = b) :
    Informs P c (⟨.mu, s, post, pick⟩ :: ⟨.own c, s', s', pick'⟩ :: t) :=
  Informs.announced rfl rfl rfl ht.1 ht.2 hann hpeers hflips

theorem informing_register : Informing P c (register c) := by
  unfold register
  refine Records.bind (Q := fun r t => ∃ s pick, r = (Hub.registerLocked c s).1 ∧
    t = [⟨.mu, s, (s.registerLocked c).2, pick⟩]) (Records.atomically fun s pick =>
      ⟨s, pick, rfl, rfl⟩) ?_
  rintro _ _ ⟨s, pick, rfl, rfl⟩
  refine Records.bind (Q := fun id t => ∃ s' pick', id = (Hub.conns s' c).agentID ∧
    t = [⟨.own c, s', s', pick'⟩]) (Records.read fun s' pick' => ⟨s', pick', rfl, rfl⟩) ?_
  rintro _ _ ⟨s', pick', rfl, rfl⟩
  refine (announced_readEntry c _ _ _).mono fun _ t ht =>
    Informs.announcement ht (.registered rfl) rfl fun id hf => ?_
  have hclients : (s.registerLocked c).2.clients = s.clients.insert (s.conns c).agentID c :=
    (s.registerLocked_spec c).clients
  unfold Hub.connected at hf ⊢
  rw [hclients] at hf ⊢
  by_cases hid : (s.conns c).agentID = id
  · exact ⟨hid, by simp [hid]⟩
  · simp [Std.ExtTreeMap.contains_insert, hid] at hf

theorem Hub.deregisterLocked_peers {s s' : Hub} {r : Option (EntryPtr × List ConnID)}
    (hd : s.deregisterLocked c = some (r, s')) : (r = none ∧ s'.clients = s.clients) ∨
      ∃ ptr peers, r = some (ptr, peers) ∧ s'.clients = s.clients.erase (s.conns c).agentID ∧
        peers = s'.presencePeersLocked (s.conns c).agentID := by
  unfold Hub.deregisterLocked at hd
  dsimp only at hd
  split at hd
  · obtain ⟨rfl, rfl⟩ : none = r ∧ _ = s' := by simpa using hd
    exact .inl ⟨rfl, rfl⟩
  · split at hd
    · simp at hd
    · obtain ⟨rfl, rfl⟩ : some _ = r ∧ _ = s' := by simpa using hd
      exact .inr ⟨_, _, rfl, rfl, rfl⟩

theorem informing_deregister : Informing P c (deregister c) := by
  unfold deregister
  refine Informing.bind (Informing.of_emits (Emits.modify fun _ _ => .dropped)) fun _ => ?_
  refine Records.bind (Q := fun r t => ∃ s s' pick, s.deregisterLocked c = some (r, s') ∧
    t = [⟨.mu, s, s', pick⟩]) (Records.guarded fun pick s r s' hd => ⟨s, s', pick, hd, rfl⟩) ?_
  rintro r _ ⟨s, s', pick, hd, rfl⟩
  rcases Hub.deregisterLocked_peers hd with ⟨rfl, hclients⟩ | ⟨ptr, peers, rfl, hclients, hpeers⟩
  · refine Records.pure (Informs.of_mute fun e he => ?_)
    obtain rfl := List.mem_singleton.mp (List.append_nil _ ▸ he)
    exact ⟨fun _ _ => Label.noConfusion, hclients⟩
  · refine Records.bind (Q := fun id t => ∃ s1 pick', id = (Hub.conns s1 c).agentID ∧
      t = [⟨.own c, s1, s1, pick'⟩]) (Records.read fun s1 pick' => ⟨s1, pick', rfl, rfl⟩) ?_
    rintro _ _ ⟨s1, pick', rfl, rfl⟩
    refine (announced_readEntry c _ _ _).mono fun _ t ht =>
      Informs.announcement ht (.left ptr peers hd) hpeers fun id hf => ?_
    unfold Hub.connected at hf ⊢
    rw [hclients] at hf ⊢
    by_cases hid : (s.conns c).agentID = id
    · exact ⟨hid, by simp [hid]⟩
    · simp [Std.ExtTreeMap.contains_erase, hid] at hf

theorem Hub.joinLocked_peers {s s' : Hub} {name chanPub : String} {o : JoinOutcome}
    (hj : s.joinLocked P c name chanPub = (o, s')) : s'.clients = s.clients ∧
      ∀ created rejoin peers, o = .joined created rejoin peers →
        peers = s'.presencePeersLocked (s.conns c).agentID := by
  unfold Hub.joinLocked at hj
  dsimp only at hj
  split at hj
  · split at hj
    · obtain ⟨rfl, rfl⟩ := Prod.mk.inj hj
      exact ⟨rfl, fun _ _ _ h => by cases h⟩
    · obtain ⟨rfl, rfl⟩ := Prod.mk.inj hj
      exact ⟨rfl, fun _ _ _ h => (JoinOutcome.joined.inj h).2.2.symm⟩
  · split at hj
    · obtain ⟨rfl, rfl⟩ := Prod.mk.inj hj
      exact ⟨rfl, fun _ _ _ h => (JoinOutcome.joined.inj h).2.2.symm⟩
    · obtain ⟨rfl, rfl⟩ := Prod.mk.inj hj
      exact ⟨rfl, fun _ _ _ h => by cases h⟩

theorem informing_joinChannel (name chanPub : String) :
    Informing P c (joinChannel P c name chanPub) := by
  unfold joinChannel
  refine Records.bind (Q := fun o t => ∃ s s' pick, s.joinLocked P c name chanPub = (o, s') ∧
    t = [⟨.mu, s, s', pick⟩]) (Records.atomically fun s pick => ⟨s, _, pick, rfl, rfl⟩) ?_
  rintro o _ ⟨s, s', pick, hj, rfl⟩
  obtain ⟨hclients, hpeers⟩ := Hub.joinLocked_peers hj
  have hmute : Informs P c [⟨.mu, s, s', pick⟩] := by
    refine Informs.of_mute fun e he => ?_
    obtain rfl := List.mem_singleton.mp he
    exact ⟨fun _ _ => Label.noConfusion, hclients⟩
  have hlog : ∀ (kvs : Hub → List (String × String)) (r : Option ProtoError),
      Informing P c (do logf "join" kvs; return r) := fun kvs r =>
    Informing.of_emits (Emits.bind (Act.logf _ _) fun _ => Emits.pure _)
  cases o with
  | noMaster => exact (hlog _ _).mono fun _ _ ht => hmute.append ht
  | notAllowed => exact (hlog _ _).mono fun _ _ ht => hmute.append ht
  | joined created rejoin peers =>
    refine Records.bind (Q := fun k t => ∃ s1 pick', k = Hub.conns s1 c ∧
      t = [⟨.own c, s1, s1, pick'⟩]) (Records.read fun s1 pick' => ⟨s1, pick', rfl, rfl⟩) ?_
    rintro _ _ ⟨s1, pick', rfl, rfl⟩
    have hsent : ∀ a : AgentEntry, a.online = true →
        Records (sendPresence peers (s1.conns c).agentID a) fun _ t =>
          Informs P c (⟨.mu, s, s', pick⟩ :: ⟨.own c, s1, s1, pick'⟩ :: t) := by
      intro a ha
      refine (announced_sendPresence c _ _ _).mono fun _ t ht =>
        Informs.announcement ht ?_ (hpeers _ _ _ rfl) fun id hf => ?_
      · rw [ha]
        exact .joined name chanPub _ _ _ hj
      · exact absurd (by unfold Hub.connected; rw [hclients]) hf
    refine Records.bind (hsent _ rfl) fun _ t ht => (hlog _ _).mono fun _ _ ht' => ?_
    exact ht.append ht'

/-- A critical section in which nobody comes or goes, and frames that it is behind. -/
theorem Informs.led {e : HubSection} {t : List HubSection} (he : e.label = .mu)
    (hclients : e.post.clients = e.pre.clients) (ht : ∀ x ∈ t, Passing c frames x)
    (hframes : ∀ p f v, frames p f → Unlocked v → Behind P c p f (e :: v)) :
    Informs P c (e :: t) := by
  constructor
  · intro t1 x t2 p f heq hl hop
    rcases t1 with _ | ⟨y, t1⟩
    · obtain ⟨rfl, -⟩ := List.cons.inj heq
      exact Label.noConfusion (he.symm.trans hl)
    · obtain ⟨rfl, ht2⟩ := List.cons.inj heq
      change t = t1 ++ x :: t2 at ht2
      subst ht2
      refine hframes p f t1 ((ht x (by simp)).queues p f hl) fun z hz => ?_
      exact (ht z (List.mem_append_left _ hz)).unlocked
  · intro t1 x t2 id heq hf
    rcases t1 with _ | ⟨y, t1⟩
    · obtain ⟨rfl, -⟩ := List.cons.inj heq
      exact absurd hf fun h => h (by unfold Hub.connected; rw [hclients])
    · obtain ⟨rfl, ht2⟩ := List.cons.inj heq
      change t = t1 ++ x :: t2 at ht2
      subst ht2
      exact absurd hf fun h => h (by unfold Hub.connected; rw [(ht x (by simp)).clients])

theorem informing_handlePresenceQuery (f : Frame) : Informing P c (handlePresenceQuery c f) := by
  unfold handlePresenceQuery presenceList
  refine Records.bind (Q := fun list t => ∃ s pick, list = Hub.presenceList s ∧
    t = [⟨.mu, s, s, pick⟩]) (Records.read fun s pick => ⟨s, pick, rfl, rfl⟩) ?_
  rintro _ _ ⟨s, pick, rfl, rfl⟩
  have hsent : Emits (Passing c fun p g => p = c ∧ g = presenceAnswer f.id s.presenceList)
      (sendFrame c (.frame (presenceAnswer f.id s.presenceList))) := passing_sendFrame ⟨rfl, rfl⟩
  refine Records.bind (Records.of_emits hsent) fun _ t ht => Records.pure ?_
  rw [List.append_nil]
  refine Informs.led rfl rfl ht ?_
  rintro p _ v ⟨hp, rfl⟩ hv
  exact .inr (.inl ⟨[], _, v, rfl, rfl, hv, hp, rfl, f.id, rfl⟩)

theorem informing_handleFlush : Informing P c (handleFlush c) := by
  unfold handleFlush
  refine Informing.bind (Informing.of_emits (Act.read rfl)) fun k => ?_
  refine Records.bind (Q := fun r t => ∃ s pick, r = (Hub.drainLocked k.agentID s).1 ∧
    t = [⟨.mu, s, (s.drainLocked k.agentID).2, pick⟩]) (Records.atomically fun s pick =>
      ⟨s, pick, rfl, rfl⟩) ?_
  rintro _ _ ⟨s, pick, rfl, rfl⟩
  let msgs := s.mailbox[k.agentID]?.getD []
  have hsent : Emits (Passing c fun _ f => f ∈ msgs) (msgs.forM fun m => do
      let _ ← sendFrame c (.frame m)) :=
    Emits.forM fun m hm => Emits.bind (passing_sendFrame hm) fun _ => Emits.pure _
  refine Records.bind (Q := fun _ t =>
    Informs P c (⟨.mu, s, (s.drainLocked k.agentID).2, pick⟩ :: t))
    ((Records.of_emits hsent).mono fun _ t ht => ?_) fun _ t1 h1 => ?_
  · refine Informs.led rfl rfl ht fun p f v hf hv => ?_
    exact .inr (.inr ⟨_, List.mem_cons_self, k.agentID, hf⟩)
  · have hend : Informing P c (do
        let _ ← sendFrame c (.frame (flushedFrame msgs.length))
        logf "flush" fun _ => [("agent", k.agentID), ("count", toString msgs.length),
          ("overflowed", toString (s.drainLocked k.agentID).1.2)]) := by
      refine Informing.of_emits (Emits.bind (Act.sendFrame fun g hg => ?_) fun _ => Act.logf _ _)
      rw [← Reply.frame.inj hg]
      change "flushed" ≠ "presence"
      decide
    split
    · refine (Informing.bind (Informing.of_emits (Act.sendErr (muted_refuses _) _)) fun _ =>
        hend).mono fun _ t ht => ?_
      exact h1.append ht
    · exact hend.mono fun _ t ht => h1.append ht

theorem informing_handleWhois (f : Frame) : Informing P c (handleWhois c f) := by
  apply Informing.of_emits (P := P)
  unfold handleWhois
  refine Emits.bind (Act.read rfl) fun e => ?_
  split
  · exact Act.sendErr (muted_refuses _) _
  · refine Emits.bind (Act.sendFrame fun g hg => ?_) fun _ => Emits.pure _
    rw [← Reply.frame.inj hg]
    change "agent_info" ≠ "presence"
    decide

theorem informing_enroll (op : EnrollOp) : Informing P c (enroll P c op) := by
  apply Informing.of_emits (P := P)
  unfold enroll
  refine Emits.bind (Act.read rfl) fun k => ?_
  split
  · exact Act.sendErr (muted_refuses _) _
  · refine Emits.bind (Act.does fun _ _ => ⟨.drawn, rfl⟩) fun secret => ?_
    refine Emits.bind (Act.does fun _ _ => ⟨.enrolled _ _ _, rfl⟩) fun _ => ?_
    refine Emits.bind (Act.logf _ _) fun _ => ?_
    exact Emits.bind (Act.sendFrame fun g hg => by cases hg) fun _ => Emits.pure _

theorem informing_handleSend (f : Frame) (raw : Raw) : Informing P c (handleSend P c f raw) := by
  refine Informing.of_emits (Act.handleSend muted_refuses (fun _ _ => ⟨.looked, rfl⟩)
    (fun _ _ _ _ => ⟨.latched _ _, rfl⟩) (fun d sender g hg => ?_) (fun _ _ => trivial) raw)
  rw [← Reply.frame.inj hg]
  unfold routed
  split
  · change "msg" ≠ "presence"
    decide
  · change "msg" ≠ "presence"
    decide

theorem informing_handleHello (f : Frame) (raw : Raw) : Informing P c (handleHello P c f raw) := by
  have hreject : ∀ code msg, Informing P c (reject c code msg) := fun code msg =>
    Informing.of_emits (Act.reject (muted_refuses code) msg)
  unfold handleHello welcome
  refine Informing.bind (Informing.of_emits (Act.setOwn (.traced f))) fun _ => ?_
  refine Informing.bind (Informing.of_emits (Act.logf _ _)) fun _ => ?_
  refine Informing.bind (Informing.of_emits (Act.read rfl)) fun k => ?_
  split
  · exact Informing.of_emits (Act.sendErr (muted_refuses _) _)
  refine Informing.bind (Informing.of_emits (Act.does fun _ _ => ⟨.checked f raw, rfl⟩)) fun r => ?_
  split
  · exact hreject _ _
  refine Informing.bind (Informing.of_emits (Act.read rfl)) fun k => ?_
  split
  · exact hreject _ _
  · refine Informing.bind (Informing.of_emits (Act.setOwn (.greeted f))) fun _ => ?_
    refine Informing.bind informing_register fun _ => Informing.of_emits ?_
    refine Emits.bind (Act.sendFrame fun g hg => ?_) fun _ => Emits.pure _
    rw [← Reply.frame.inj hg]
    change "welcome" ≠ "presence"
    decide

theorem informing_handleJoin (f : Frame) : Informing P c (handleJoin P c f) := by
  have hrefuse : ∀ code msg, Informing P c (sendErr c code msg) := fun code msg =>
    Informing.of_emits (Act.sendErr (muted_refuses code) msg)
  unfold handleJoin
  split
  · exact hrefuse _ _
  refine Informing.bind (informing_joinChannel _ _) fun r => ?_
  split
  · exact hrefuse _ _
  · refine Informing.of_emits (Emits.bind (Act.sendFrame fun g hg => ?_) fun _ => Emits.pure _)
    rw [← Reply.frame.inj hg]
    change "joined" ≠ "presence"
    decide

theorem informing_handler {op : String} {f : Frame} {raw : Raw} {handle : HubProc Unit}
    (hh : handler P c op f raw = some handle) : Informing P c handle := by
  unfold handler at hh
  split at hh
  · exact Option.some.inj hh ▸ informing_handleHello f raw
  split at hh
  · exact Option.some.inj hh ▸ informing_handleWhois f
  split at hh
  · exact Option.some.inj hh ▸ informing_handlePresenceQuery f
  split at hh
  · exact Option.some.inj hh ▸ informing_handleJoin f
  split at hh
  · exact Option.some.inj hh ▸ informing_handleSend f raw
  split at hh
  · exact Option.some.inj hh ▸ informing_handleFlush
  split at hh
  · exact Option.some.inj hh ▸ informing_enroll .enroll
  split at hh
  · exact Option.some.inj hh ▸ informing_enroll .enrollCreate
  · simp at hh

theorem informing_dispatch (data : Bytes) : Informing P c (dispatch P c data) := by
  have hlog : ∀ op id code, Informing P c (logOp c op id code) := fun _ _ _ =>
    Informing.of_emits (Act.logf _ _)
  have hrefuse : ∀ code msg, Informing P c (sendErr c code msg) := fun code msg =>
    Informing.of_emits (Act.sendErr (muted_refuses code) msg)
  have htouch : ∀ (s : Hub) (id : String), (s.touchLastSeenLocked id).clients = s.clients := by
    intro s id
    rw [s.touchLastSeenLocked_frame]
  unfold dispatch dispatchFrame
  refine Informing.bind (Informing.of_emits (Act.setOwn (.code ""))) fun _ => ?_
  split
  · exact Informing.bind (hrefuse _ _) fun _ => hlog _ _ _
  refine Informing.bind (Informing.of_emits (Act.read rfl)) fun k => ?_
  split
  · exact Informing.bind (hrefuse _ _) fun _ => hlog _ _ _
  refine Informing.bind (Informing.of_emits (Act.does fun s _ => ⟨.touched _, htouch s _⟩))
    fun _ => ?_
  split
  next handle hh => exact Informing.bind (informing_handler hh) fun _ => hlog _ _ _
  next => exact Informing.bind (hrefuse _ _) fun _ => hlog _ _ _

theorem informing_readLoop (messages : List Message) : Informing P c (readLoop P c messages) := by
  induction messages with
  | nil => exact Informing.pure _
  | cons m rest ih =>
    unfold readLoop
    refine Informing.bind (Informing.of_emits (Act.read rfl)) fun closed => ?_
    split
    · exact Informing.pure _
    · cases m with
      | binary data =>
        exact Informing.bind (Informing.of_emits (Act.sendErr (muted_refuses _) _)) fun _ => ih
      | text data =>
        dsimp only
        split
        · exact Informing.of_emits (Act.reject (muted_refuses _) _)
        · exact Informing.bind (informing_dispatch data) fun _ => ih

/-- Whatever messages arrive, the read loop informs. -/
theorem informing_serve (remote : String) (messages : List Message) :
    Informing P c (serve P c remote messages) :=
  Informing.bind (Informing.of_emits (Act.logf _ _)) fun _ =>
    Informing.bind (informing_readLoop messages) fun _ =>
      Informing.bind informing_deregister fun _ => Informing.of_emits (Act.logf _ _)

end Programs

end Dap
