import Dap.Hub.Authorized
import Dap.Hub.Routing

/-! What an eviction leaves behind: mailboxes, overflow flags and channel members over whole runs of
the hub, against the registry (`hub/admin.go`, `hub/channels.go`, `hub/mailbox.go`). -/
namespace Dap
open Proc

variable {P : Platform} {c d : ConnID} {id : String}

/-! ### What a read loop looks up before it stores -/

/-- The section puts a message in the mailbox of the agent. -/
def Stores (id : String) (e : HubSection) : Prop := ∃ f, e.label = .enqueue id f

/-- A send can find the agent: it is registered, or a member of a channel. -/
def Hub.Addressable (h : Hub) (id : String) : Prop :=
  id ∈ h.agents ∨ ∃ (name : String) (ch : Channel), h.channels[name]? = some ch ∧ id ∈ ch.members

/-- Whoever stores a message has found its agent since it took up the frame. -/
def Looks (c : ConnID) (t : List HubSection) : Prop :=
  ∀ t1 e t2 id, t = t1 ++ e :: t2 → Stores id e → ∃ u x v, t1 = u ++ x :: v ∧
    x.pre.Addressable id ∧ ∀ y ∈ v, y.label ≠ .receive c

theorem Looks.append {t t' : List HubSection} (h : Looks c t) (h' : Looks c t') :
    Looks c (t ++ t') := by
  intro t1 e t2 id heq he
  rcases append_cut heq with ⟨r, rfl, hr⟩ | ⟨r, hr, -⟩
  · obtain ⟨u, x, v, rfl, hx, hv⟩ := h' r e t2 id hr he
    exact ⟨t ++ u, x, v, by rw [List.append_assoc], hx, hv⟩
  · exact h t1 e r id hr he

theorem Looks.initial {t t' : List HubSection} (h : Looks c t) (ht : t' <+: t) : Looks c t' := by
  obtain ⟨r, rfl⟩ := ht
  rintro t1 e t2 id rfl he
  exact h t1 e (t2 ++ r) id (by simp) he

theorem Looks.of_none {t : List HubSection} (h : ∀ e ∈ t, ∀ id, ¬ Stores id e) : Looks c t := by
  rintro t1 e t2 id rfl he
  exact absurd he (h e (by simp) id)

theorem Looks.of_label {e : HubSection} (h : ∀ id f, e.label ≠ .enqueue id f) : Looks c [e] :=
  Looks.of_none fun _ he' id ⟨f, hf⟩ => h id f (List.mem_singleton.mp he' ▸ hf)

/-- The sections after a look-up store for those that it found. -/
theorem Looks.of_found {x : HubSection} {t : List HubSection} (hx : ∀ id f, x.label ≠ .enqueue id f)
    (h : ∀ e ∈ t, e.label ≠ .receive c ∧ ∀ id, Stores id e → x.pre.Addressable id) :
    Looks c ([x] ++ t) := by
  intro t1 e t2 id heq he
  cases t1 with
  | nil =>
    obtain ⟨rfl, -⟩ := List.cons.inj heq
    obtain ⟨f, hf⟩ := he
    exact absurd hf (hx id f)
  | cons y t1 =>
    obtain ⟨hy, ht⟩ := List.cons.inj heq
    change t = t1 ++ e :: t2 at ht
    subst hy ht
    exact ⟨[], x, t1, rfl, (h e (by simp)).2 id he,
      fun z hz => (h z (List.mem_append_left _ hz)).1⟩

section Programs

variable {α β : Type}

/-- Every run of the program records sections that look before they store. -/
def Looking (c : ConnID) (p : HubProc α) : Prop := Records p fun _ t => Looks c t

theorem Looking.bind {p : HubProc α} {k : α → HubProc β} (hp : Looking c p)
    (hk : ∀ a, Looking c (k a)) : Looking c (p >>= k) :=
  Records.bind hp fun a _ ht => (hk a).mono fun _ _ ht' => ht.append ht'

theorem Looking.pure (a : α) : Looking c (Pure.pure a : HubProc α) :=
  Records.pure (Looks.of_none fun _ he => by cases he)

theorem Act.not_stores {S : Scope} (hS : ∀ id f, ¬ S.stores id f) (hd : ∀ e, S.does e → Task P c e)
    {e : HubSection} (he : Act c S e) (id : String) : ¬ Stores id e := by
  rintro ⟨f, hf⟩
  cases he with
  | observed hl =>
    change _ = _ at hf
    subst hf
    exact Bool.noConfusion hl
  | stored hm => exact hS _ _ hm
  | other he =>
    have ht := hd _ he
    cases ht <;> exact Label.noConfusion hf
  | _ => exact Label.noConfusion hf

/-- What a connection may do besides storing messages. -/
def unstoring (P : Platform) (c : ConnID) : Scope where
  writes := OwnWrite P
  sends _ _ := True
  does := Task P c

theorem unstoring_serves : (unstoring P c).Serves P c :=
  ⟨fun _ hf => hf, fun _ _ => trivial, fun _ _ _ => trivial, fun _ he => he⟩

theorem Looking.of_emits {p : HubProc α} (hp : Emits (Act c (unstoring P c)) p) : Looking c p :=
  (Records.of_emits hp).mono fun _ _ ht => Looks.of_none fun e he id =>
    Act.not_stores (fun _ _ h => h) (fun _ h => h) (ht e he) id

/-- The section takes up no frame, and it stores only for these agents. -/
def Within (ids : String → Prop) (c : ConnID) (e : HubSection) : Prop :=
  e.label ≠ .receive c ∧ ∀ id, Stores id e → ids id

theorem Within.of_label {ids : String → Prop} {e : HubSection} (hr : e.label ≠ .receive c)
    (hs : ∀ id f, e.label ≠ .enqueue id f) : Within ids c e :=
  ⟨hr, fun id ⟨f, hf⟩ => absurd hf (hs id f)⟩

variable {ids : String → Prop}

theorem within_logf (event : String) (kvs : Hub → List (String × String)) :
    Emits (Within ids c) (logf event kvs) :=
  Emits.modify fun _ _ => Within.of_label Label.noConfusion fun _ _ => Label.noConfusion

theorem within_sendFrame (d : ConnID) (r : Reply) : Emits (Within ids c) (sendFrame d r) := by
  have hone : ∀ {label : Label} {s s' : Hub} {pick : Bool}, label ≠ .receive c →
      (∀ id f, label ≠ .enqueue id f) → Within ids c ⟨label, s, s', pick⟩ :=
    fun hr hs => Within.of_label hr hs
  have hrelease : Emits (Within ids c) (release d r) :=
    Emits.modify fun _ _ => hone Label.noConfusion fun _ _ => Label.noConfusion
  unfold sendFrame
  refine Emits.bind (Emits.read fun _ _ => hone Label.noConfusion fun _ _ => Label.noConfusion)
    fun queued => ?_
  split
  · refine Emits.bind (within_logf _ _) fun _ => ?_
    refine Emits.bind (Emits.modify fun _ _ => hone Label.noConfusion fun _ _ => Label.noConfusion)
      fun _ => ?_
    refine Emits.bind (Emits.modify fun _ _ => hone Label.noConfusion fun _ _ => Label.noConfusion)
      fun _ => ?_
    exact Emits.pure _
  · refine Emits.bind (Emits.modify fun _ _ => hone Label.noConfusion fun _ _ => Label.noConfusion)
      fun _ => ?_
    refine Emits.bind (Emits.read fun _ _ => hone Label.noConfusion fun _ _ => Label.noConfusion)
      fun closed => ?_
    split
    · exact Emits.bind hrelease fun _ => Emits.pure _
    · refine Emits.bind (Emits.guarded fun _ _ _ _ _ => hone Label.noConfusion
        fun _ _ => Label.noConfusion) fun pushed => ?_
      split
      · exact Emits.pure _
      · exact Emits.bind hrelease fun _ => Emits.pure _

theorem within_enqueue {f : Frame} (hid : ids id) : Emits (Within ids c) (enqueue id f) := by
  refine Emits.atomically fun s pick => ⟨Label.noConfusion, ?_⟩
  rintro id' ⟨f', hf'⟩
  obtain ⟨rfl, -⟩ := Label.enqueue.inj hf'
  exact hid

/-- A look-up, and a program that stores for those whom it finds. -/
theorem Looking.of_found {label : Label} {g : Hub → α} {k : α → HubProc β}
    (hl : ∀ id f, label ≠ .enqueue id f) (hk : ∀ s : Hub, Looking c (k (g s)) ∨
      ∃ ids, Emits (Within ids c) (k (g s)) ∧ ∀ id, ids id → s.Addressable id) :
    Looking c (Proc.read label g >>= k) := by
  refine Records.bind (Q := fun a t => ∃ e : HubSection, t = [e] ∧ e.label = label ∧ a = g e.pre)
    (Records.read fun _ _ => ⟨_, rfl, rfl, rfl⟩) ?_
  rintro _ _ ⟨x, rfl, hx, rfl⟩
  have hx' : ∀ id f, x.label ≠ .enqueue id f := fun id f hf => hl id f (hx.symm.trans hf)
  rcases hk x.pre with hk | ⟨ids, hk, hids⟩
  · exact hk.mono fun _ t ht => (Looks.of_label hx').append ht
  · refine (Records.of_emits hk).mono fun _ t ht => Looks.of_found hx' fun e he => ?_
    exact ⟨(ht e he).1, fun id hid => hids id ((ht e he).2 id hid)⟩

theorem Looking.read {label : Label} {g : Hub → α} (hl : ∀ id f, label ≠ .enqueue id f) :
    Looking c (Proc.read label g) := Records.read fun _ _ => Looks.of_label hl

theorem looking_deliverDM (P : Platform) (f : Frame) : Looking c (deliverDM c f) := by
  have hS : (unstoring P c).Serves P c := unstoring_serves
  unfold deliverDM
  refine Looking.bind (Looking.read fun _ _ => Label.noConfusion) fun k => ?_
  refine Looking.of_found (fun _ _ => Label.noConfusion) fun s => ?_
  split
  · exact .inl (Looking.of_emits (P := P) (Emits.bind (Act.logf _ _) fun _ =>
      Emits.bind (Act.sendErr (hS.refuses _) _) fun _ => Emits.pure _))
  next a ha =>
    refine .inr ⟨fun id => id = f.to, ?_, ?_⟩
    · refine Emits.bind (Emits.read fun _ _ => Within.of_label Label.noConfusion
        fun _ _ => Label.noConfusion) fun target => ?_
      split
      · exact Emits.bind (within_enqueue rfl) fun _ => Emits.bind (within_logf _ _) fun _ =>
          Emits.pure _
      · refine Emits.bind (within_sendFrame _ _) fun sent => ?_
        split
        · exact Emits.bind (within_logf _ _) fun _ => Emits.pure _
        · exact Emits.bind (within_enqueue rfl) fun _ => Emits.bind (within_logf _ _) fun _ =>
            Emits.pure _
    · rintro _ rfl
      exact .inl (Std.ExtTreeMap.mem_iff_isSome_getElem?.mpr (Option.isSome_of_eq_some ha))

theorem looking_deliverChannel (P : Platform) (f : Frame) : Looking c (deliverChannel P c f) := by
  have hS : (unstoring P c).Serves P c := unstoring_serves
  unfold deliverChannel
  refine Looking.bind (Looking.read fun _ _ => Label.noConfusion) fun k => ?_
  refine Looking.of_found (fun _ _ => Label.noConfusion) fun s => ?_
  split
  · exact .inl (Looking.of_emits (P := P) (Emits.bind (Act.logf _ _) fun _ =>
      Emits.bind (Act.sendErr (hS.refuses _) _) fun _ => Emits.pure _))
  next t ht =>
    refine .inr ⟨fun id => id ∈ t.offline, ?_, ?_⟩
    · refine Emits.bind (Emits.forM fun m _ => ?_) fun _ =>
        Emits.bind (Emits.forM fun id hid => ?_) fun _ =>
          Emits.bind (within_logf _ _) fun _ => Emits.pure _
      · exact Emits.bind (within_sendFrame _ _) fun _ => Emits.pure _
      · exact Emits.bind (within_enqueue hid) fun _ => Emits.pure _
    · intro id hid
      obtain ⟨ch, hch, -, rfl⟩ := Hub.channelTargets_member ht
      exact .inr ⟨f.channel, ch, hch, Hub.mem_offline hid⟩

theorem looking_handleSend (f : Frame) (raw : Raw) : Looking c (handleSend P c f raw) := by
  have hrefuse : ∀ code msg, Looking c (sendErr c code msg) := fun code msg =>
    Looking.of_emits (P := P) (Act.sendErr (unstoring_serves.refuses code) msg)
  unfold handleSend
  refine Looking.bind (Looking.read fun _ _ => Label.noConfusion) fun k => ?_
  split
  · exact hrefuse _ _
  refine Looking.bind (Looking.read fun _ _ => Label.noConfusion) fun now => ?_
  split
  · exact hrefuse _ _
  split
  · exact hrefuse _ _
  refine Looking.bind (Looking.read fun _ _ => Label.noConfusion) fun used => ?_
  split
  · exact hrefuse _ _
  refine Looking.bind ?_ fun accepted => ?_
  · unfold deliver
    split
    · exact looking_deliverDM P f
    · exact looking_deliverChannel P f
  · split
    · exact Records.modify fun _ _ => Looks.of_label fun _ _ => Label.noConfusion
    · exact Looking.pure _

theorem looking_dispatch (data : Bytes) : Looking c (dispatch P c data) := by
  have hS : (unstoring P c).Serves P c := unstoring_serves
  have hlog : ∀ op id code, Looking c (logOp c op id code) := fun _ _ _ =>
    Looking.of_emits (P := P) (Act.logf _ _)
  have hrefuse : ∀ code msg, Looking c (sendErr c code msg) := fun code msg =>
    Looking.of_emits (P := P) (Act.sendErr (hS.refuses code) msg)
  unfold dispatch dispatchFrame
  refine Looking.bind (Looking.of_emits (P := P) (Act.setOwn (hS.write _ (.code "")))) fun _ => ?_
  split
  · exact Looking.bind (hrefuse _ _) fun _ => hlog _ _ _
  next f raw hparse =>
    refine Looking.bind (Looking.read fun _ _ => Label.noConfusion) fun k => ?_
    split
    · exact Looking.bind (hrefuse _ _) fun _ => hlog _ _ _
    refine Looking.bind (Looking.of_emits (Act.task hS fun _ _ => .touched _)) fun _ => ?_
    split
    next handle hh =>
      refine Looking.bind ?_ fun _ => hlog _ _ _
      by_cases hsend : frameOp f raw = "send"
      · have hhandle : handler P c (frameOp f raw) f raw = some (handleSend P c f raw) := by
          simp [handler, hsend]
        obtain rfl := Option.some.inj (hh.symm.trans hhandle)
        exact looking_handleSend f raw
      · exact Looking.of_emits (Act.handler hS (fun h => absurd h hsend)
          (fun _ => Act.handleFlush hS fun _ => trivial) hh)
    · exact Looking.bind (hrefuse _ _) fun _ => hlog _ _ _

theorem looking_readLoop (messages : List Message) : Looking c (readLoop P c messages) := by
  have hS : (unstoring P c).Serves P c := unstoring_serves
  induction messages with
  | nil => exact Looking.pure _
  | cons m rest ih =>
    unfold readLoop
    refine Looking.bind (Looking.read fun _ _ => Label.noConfusion) fun closed => ?_
    split
    · exact Looking.pure _
    · cases m with
      | binary data =>
        exact Looking.bind (Looking.of_emits (P := P) (Act.sendErr (hS.refuses _) _)) fun _ => ih
      | text data =>
        dsimp only
        split
        · exact Looking.of_emits (P := P) (Act.reject (hS.refuses _) _)
        · exact Looking.bind (looking_dispatch data) fun _ => ih

/-- Whatever messages arrive, the read loop looks before it stores. -/
theorem looking_serve (remote : String) (messages : List Message) :
    Looking c (serve P c remote messages) :=
  Looking.bind (Looking.of_emits (P := P) (Act.logf _ _)) fun _ =>
    Looking.bind (looking_readLoop messages) fun _ =>
      Looking.bind (Looking.of_emits (P := P) (Act.deregister unstoring_serves)) fun _ =>
        Looking.of_emits (P := P) (Act.logf _ _)

end Programs

/-! ### Evictions in a run -/

/-- The administrator evicts the agent. -/
def Evicts (id : String) (m : Option ConnID × HubSection) : Prop :=
  m.1 = none ∧ (m.2.pre.adminEvictLocked id).1 = .evicted ∧
    m.2.post = (m.2.pre.adminEvictLocked id).2

/-- A hello registers the agent. -/
def Greets (id : String) (m : Option ConnID × HubSection) : Prop :=
  ∃ c, m.1 = some c ∧ (m.2.pre.conns c).agentID = id ∧ m.2.post = (m.2.pre.registerLocked c).2

/-- The agent becomes a member of a channel. -/
def Enters (id : String) (e : HubSection) : Prop :=
  ∃ (name : String) (ch : Channel), e.post.channels[name]? = some ch ∧ id ∈ ch.members ∧
    ∀ ch0 : Channel, e.pre.channels[name]? = some ch0 → id ∉ ch0.members

/-- Every mailbox, every overflow flag and every member of a channel is of a registered agent. -/
structure Hub.Tidy (h : Hub) : Prop where
  mail : ∀ id : String, id ∈ h.mailbox → id ∈ h.agents
  flags : ∀ id : String, id ∈ h.mailboxDropped → id ∈ h.agents
  members : ∀ (name : String) (ch : Channel), h.channels[name]? = some ch →
    ∀ id ∈ ch.members, id ∈ h.agents

/-- Agents are evicted from no channel's midst, only registered agents join, and what is stored for
an evicted agent is not of a frame that was taken up before. -/
structure CleanEvictions (H : HubHistory) : Prop where
  apart : ∀ m ∈ H, ∀ id, Evicts id m → ∀ (name : String) (ch : Channel),
    m.2.pre.channels[name]? = some ch → id ∉ ch.members
  known : ∀ c e, (some c, e) ∈ H → ∀ id, Enters id e → id ∈ e.pre.agents
  idle : ∀ H1 m H2 c e H3 id, H = H1 ++ m :: (H2 ++ (some c, e) :: H3) → Evicts id m →
    (∀ m' ∈ H2, ¬ Greets id m') → Stores id e → ∃ y ∈ History.own H2 c, y.label = .receive c

theorem CleanEvictions.of_append {H H' : HubHistory} (h : CleanEvictions (H ++ H')) :
    CleanEvictions H := by
  refine ⟨fun m hm => h.apart m (List.mem_append_left _ hm),
    fun c e he => h.known c e (List.mem_append_left _ he), ?_⟩
  intro H1 m H2 c e H3 id hH
  refine h.idle H1 m H2 c e (H3 ++ H') id ?_
  rw [hH]
  simp

namespace Hub

theorem mem_agents_registerLocked (h : Hub) (c : ConnID) (id : String) :
    id ∈ (h.registerLocked c).2.agents ↔ (h.conns c).agentID = id ∨ id ∈ h.agents := by
  obtain ⟨e, he, -⟩ := (h.registerLocked_spec c).agents
  rw [he]
  exact GoMap.mem_insert_iff

theorem mem_agents_touchLastSeenLocked (h : Hub) (id' id : String) :
    id ∈ (h.touchLastSeenLocked id').agents ↔ id ∈ h.agents := by
  unfold touchLastSeenLocked
  split
  next e he => exact GoMap.mem_insert_of_some he _
  next => rfl

theorem mem_agents_deregisterLocked {h h' : Hub} {c : ConnID}
    {r : Option (EntryPtr × List ConnID)} (hd : h.deregisterLocked c = some (r, h'))
    (id : String) : id ∈ h'.agents ↔ id ∈ h.agents := by
  obtain ⟨h1, rfl, ⟨-, rfl⟩ | ⟨-, e, he, rfl⟩⟩ := deregisterLocked_spec hd
  · rfl
  · exact GoMap.mem_insert_of_some he _

/-- An eviction takes one offline agent out of the registry, and what is queued for it. -/
theorem adminEvictLocked_evicted {h : Hub} {id : String}
    (he : (h.adminEvictLocked id).1 = .evicted) :
    (h.adminEvictLocked id).2.agents = h.agents.erase id ∧
      (h.adminEvictLocked id).2.mailbox = h.mailbox.erase id ∧
      (h.adminEvictLocked id).2.mailboxDropped = h.mailboxDropped.erase id := by
  unfold adminEvictLocked at he ⊢
  dsimp only at he ⊢
  split at he
  · exact EvictOutcome.noConfusion he
  · split at he
    · exact EvictOutcome.noConfusion he
    next hoff =>
      rw [if_neg hoff]
      split
      · split <;> exact ⟨rfl, rfl, rfl⟩
      · exact ⟨rfl, rfl, rfl⟩

theorem adminEvictLocked_refused {h : Hub} {id : String}
    (he : (h.adminEvictLocked id).1 ≠ .evicted) :
    (h.adminEvictLocked id).2 = h := by
  unfold adminEvictLocked at he ⊢
  dsimp only at he ⊢
  split at he
  · rfl
  · split at he
    next hon => rw [if_pos hon]
    next hoff =>
      exfalso
      apply he
      split
      · split <;> rfl
      · rfl

end Hub

/-- A hello alone brings an agent into the registry, and no task takes one out of it. -/
theorem Task.agents {e : HubSection} (ht : Task P c e) (id : String) :
    (id ∈ e.pre.agents → id ∈ e.post.agents) ∧
      (id ∈ e.post.agents → id ∈ e.pre.agents ∨ Greets id (some c, e)) := by
  have hiff : (id ∈ e.post.agents ↔ id ∈ e.pre.agents) →
      (id ∈ e.pre.agents → id ∈ e.post.agents) ∧
        (id ∈ e.post.agents → id ∈ e.pre.agents ∨ Greets id (some c, e)) :=
    fun h => ⟨h.mpr, fun hid => .inl (h.mp hid)⟩
  cases ht with
  | @registered s pick =>
    have hreg := s.mem_agents_registerLocked c id
    refine ⟨fun hid => hreg.mpr (.inr hid), fun hid => ?_⟩
    rcases hreg.mp hid with heq | hid
    · exact .inr ⟨c, rfl, heq, rfl⟩
    · exact .inl hid
  | @touched s pick id' => exact hiff (s.mem_agents_touchLastSeenLocked id' id)
  | @joined s pick name chanPub =>
    apply hiff
    change id ∈ (s.joinLocked P c name chanPub).2.agents ↔ _
    rw [Hub.joinLocked_frame]
  | @left s s' pick r hd => exact hiff (Hub.mem_agents_deregisterLocked hd id)
  | _ => exact hiff Iff.rfl

theorem Act.agents {S : Scope} (hd : ∀ e, S.does e → Task P c e) {e : HubSection} (he : Act c S e)
    (id : String) : (id ∈ e.pre.agents → id ∈ e.post.agents) ∧
      (id ∈ e.post.agents → id ∈ e.pre.agents ∨ Greets id (some c, e)) := by
  cases he with
  | @stored s pick id' f hf =>
    have hsame : (s.enqueueLocked id' f).2.agents = s.agents := by rw [Hub.enqueueLocked_frame]
    change (_ → id ∈ (s.enqueueLocked id' f).2.agents) ∧
      (id ∈ (s.enqueueLocked id' f).2.agents → _)
    rw [hsame]
    exact ⟨fun h => h, .inl⟩
  | other he => exact (hd _ he).agents id
  | _ => exact ⟨fun h => h, .inl⟩

/-- What no connection does only an eviction does: an agent leaves the registry. -/
theorem Ambient.agents {h h' : Hub} (ha : Ambient h h') (id : String) :
    (id ∈ h'.agents → id ∈ h.agents) ∧ (id ∈ h.agents → id ∉ h'.agents →
      (h.adminEvictLocked id).1 = .evicted ∧ h' = (h.adminEvictLocked id).2) := by
  have hsame : h'.agents = h.agents → (id ∈ h'.agents → id ∈ h.agents) ∧
      (id ∈ h.agents → id ∉ h'.agents →
        (h.adminEvictLocked id).1 = .evicted ∧ h' = (h.adminEvictLocked id).2) := by
    intro heq
    rw [heq]
    exact ⟨fun h => h, fun h hno => absurd h hno⟩
  cases ha with
  | quiet hq hsend => exact hsame hq.agents
  | opened c auth boundName hs => exact hsame rfl
  | evicted id' =>
    by_cases he : (h.adminEvictLocked id').1 = .evicted
    · rw [(Hub.adminEvictLocked_evicted he).1, GoMap.mem_erase_iff]
      refine ⟨And.right, fun hid hno => ?_⟩
      obtain rfl : id' = id := by
        by_contra hne
        exact hno ⟨hne, hid⟩
      exact ⟨he, rfl⟩
    · exact hsame (congrArg Hub.agents (Hub.adminEvictLocked_refused he))
  | aclSet name allowed => exact hsame rfl

/-- What has mail, or a flag, had it before, or the section stores for it. -/
theorem Act.mail {S : Scope} (hd : ∀ e, S.does e → Task P c e) {e : HubSection} (he : Act c S e)
    (id : String) : (id ∈ e.post.mailbox → id ∈ e.pre.mailbox ∨ Stores id e) ∧
      (id ∈ e.post.mailboxDropped → id ∈ e.pre.mailboxDropped ∨ Stores id e) := by
  cases he with
  | @stored s pick id' f hf =>
    change (id ∈ (s.enqueueLocked id' f).2.mailbox → _) ∧
      (id ∈ (s.enqueueLocked id' f).2.mailboxDropped → _)
    have hid : id' = id → Stores id ⟨.enqueue id' f, s, (s.enqueueLocked id' f).2, pick⟩ := by
      rintro rfl
      exact ⟨f, rfl⟩
    unfold Hub.enqueueLocked at hid ⊢
    dsimp only at hid ⊢
    split
    · exact ⟨fun h => (GoMap.mem_insert_iff.mp h).symm.imp_right hid,
        fun h => (GoMap.mem_insert_iff.mp h).symm.imp_right hid⟩
    · exact ⟨fun h => (GoMap.mem_insert_iff.mp h).symm.imp_right hid, .inl⟩
  | other he =>
    have hsame : ∀ h h' : Hub, h'.mailbox = h.mailbox → h'.mailboxDropped = h.mailboxDropped →
        (id ∈ h'.mailbox → id ∈ h.mailbox ∨ Stores id e) ∧
          (id ∈ h'.mailboxDropped → id ∈ h.mailboxDropped ∨ Stores id e) := by
      intro h h' hm hf
      rw [hm, hf]
      exact ⟨.inl, .inl⟩
    have ht := hd _ he
    cases ht with
    | @registered s pick =>
      have hreg := s.registerLocked_spec c
      exact hsame _ _ hreg.mailbox hreg.mailboxDropped
    | @touched s pick id' =>
      exact hsame s _ (by rw [s.touchLastSeenLocked_frame]) (by rw [s.touchLastSeenLocked_frame])
    | @joined s pick name chanPub =>
      exact hsame s _ (by rw [Hub.joinLocked_frame]) (by rw [Hub.joinLocked_frame])
    | @drained s pick id' =>
      exact ⟨fun h => .inl (GoMap.mem_erase_iff.mp h).2, fun h => .inl (GoMap.mem_erase_iff.mp h).2⟩
    | @left s s' pick r hd =>
      obtain ⟨h1, rfl, ⟨-, rfl⟩ | ⟨-, e, -, rfl⟩⟩ := Hub.deregisterLocked_spec hd
      · exact hsame _ _ rfl rfl
      · exact hsame _ _ rfl rfl
    | _ => exact ⟨.inl, .inl⟩
  | _ => exact ⟨.inl, .inl⟩

/-- A section of a read loop keeps things tidy, if it stores for registered agents and lets only
such in. -/
theorem Act.tidy {S : Scope} (hd : ∀ e, S.does e → Task P c e) {e : HubSection} (he : Act c S e)
    (hstores : ∀ id, Stores id e → id ∈ e.pre.agents)
    (henters : ∀ id, Enters id e → id ∈ e.pre.agents) (h : e.pre.Tidy) : e.post.Tidy := by
  refine ⟨fun id hid => ?_, fun id hid => ?_, fun name ch hch id hid => ?_⟩ <;>
    apply (he.agents hd id).1
  · rcases (he.mail hd id).1 hid with hid | hst
    · exact h.mail id hid
    · exact hstores id hst
  · rcases (he.mail hd id).2 hid with hid | hst
    · exact h.flags id hid
    · exact hstores id hst
  · by_contra hno
    have hnew : Enters id e := ⟨name, ch, hch, hid, fun ch0 hch0 hid0 =>
      hno (h.members name ch0 hch0 id hid0)⟩
    exact hno (henters id hnew)

theorem Ambient.tidy {h h' : Hub} (ha : Ambient h h')
    (hapart : ∀ id, (h.adminEvictLocked id).1 = .evicted → h' = (h.adminEvictLocked id).2 →
      ∀ (name : String) (ch : Channel), h.channels[name]? = some ch → id ∉ ch.members)
    (ht : h.Tidy) : h'.Tidy := by
  cases ha with
  | quiet hq hsend =>
    refine ⟨?_, ?_, ?_⟩
    · rw [hq.mailbox, hq.agents]
      exact ht.mail
    · rw [hq.mailboxDropped, hq.agents]
      exact ht.flags
    · rw [hq.channels, hq.agents]
      exact ht.members
  | opened c auth boundName hs => exact ⟨ht.mail, ht.flags, ht.members⟩
  | evicted id =>
    by_cases he : (h.adminEvictLocked id).1 = .evicted
    · obtain ⟨hagents, hmail, hflags⟩ := Hub.adminEvictLocked_evicted he
      constructor
      · intro id' hid
        rw [hmail, GoMap.mem_erase_iff] at hid
        rw [hagents, GoMap.mem_erase_iff]
        exact ⟨hid.1, ht.mail id' hid.2⟩
      · intro id' hid
        rw [hflags, GoMap.mem_erase_iff] at hid
        rw [hagents, GoMap.mem_erase_iff]
        exact ⟨hid.1, ht.flags id' hid.2⟩
      · intro name ch hch id' hid
        rw [Hub.adminEvictLocked_channels] at hch
        rw [hagents, GoMap.mem_erase_iff]
        refine ⟨?_, ht.members name ch hch id' hid⟩
        rintro rfl
        exact hapart id he rfl name ch hch hid
    · rw [Hub.adminEvictLocked_refused he]
      exact ht
  | aclSet name allowed =>
    refine ⟨ht.mail, ht.flags, fun name' ch hch id hid => ?_⟩
    change (h.channels.insert name _)[name']? = some ch at hch
    rw [GoMap.getElem?_insert_ite] at hch
    split at hch
    · obtain rfl := Option.some.inj hch
      cases hold : h.channels[name]? with
      | none => simp [hold] at hid
      | some ch0 =>
        rw [hold] at hid
        exact ht.members name ch0 hold id hid
    · exact ht.members name' ch hch id hid

section Runs

variable {messages : ConnID → List Message} {H : HubHistory} {h : Hub}

theorem HubRun.initial {H1 H2 : HubHistory} (hrun : HubRun P messages (H1 ++ H2) h) :
    ∃ s, HubRun P messages H1 s ∧ Linked s H2 h := by
  induction H2 using List.reverseRecOn generalizing h with
  | nil =>
    rw [List.append_nil] at hrun
    exact ⟨h, hrun, .nil h⟩
  | append_singleton H2 m ih =>
    rw [← List.append_assoc] at hrun
    obtain ⟨hbefore, rfl⟩ := hrun.of_concat
    obtain ⟨s, hs, hl⟩ := ih hbefore
    exact ⟨s, hs, hl.concat m.1⟩

/-- Whoever is registered at first and not at last was evicted, and no hello came after that. -/
theorem HubRun.lost {H1 H2 : HubHistory} {s : Hub} (hrun : HubRun P messages (H1 ++ H2) h)
    (hl : Linked s H2 h) (hs : id ∈ s.agents) (hh : id ∉ h.agents) :
    ∃ K1 m K2, H2 = K1 ++ m :: K2 ∧ Evicts id m ∧ ∀ m' ∈ K2, ¬ Greets id m' := by
  induction H2 using List.reverseRecOn generalizing h with
  | nil =>
    obtain rfl := hl.of_nil
    exact absurd hs hh
  | append_singleton K m ih =>
    rw [← List.append_assoc] at hrun
    obtain ⟨hbefore, rfl⟩ := hrun.of_concat
    obtain ⟨s', hK, hm⟩ := hl.of_append
    obtain ⟨rfl, -⟩ := hm.of_cons
    by_cases hpre : id ∈ m.2.pre.agents
    · refine ⟨K, m, [], rfl, ?_, fun m' hm' => by cases hm'⟩
      obtain ⟨_ | c, e⟩ := m
      · have hamb := hrun.ambient e (List.mem_append_right _ (List.mem_singleton_self _))
        exact ⟨rfl, (hamb.agents id).2 hpre hh⟩
      · exact absurd ((hrun.last_act.agents (fun _ ht => ht) id).1 hpre) hh
    · obtain ⟨K1, m0, K2, rfl, hm0, hK2⟩ := ih hbefore hK hpre
      refine ⟨K1, m0, K2 ++ [m], by simp, hm0, fun m' hm' => ?_⟩
      rcases List.mem_append.mp hm' with hm' | hm'
      · exact hK2 m' hm'
      · rw [List.mem_singleton.mp hm']
        rintro ⟨c, -, hid, hpost⟩
        apply hh
        rw [hpost]
        exact (Hub.mem_agents_registerLocked _ c id).mpr (.inl hid)

/-- Whoever stores a message has found its agent since it took up the frame. -/
theorem HubRun.found_before {e : HubSection} (hrun : HubRun P messages (H ++ [(some c, e)]) h)
    (hst : Stores id e) : ∃ K1 x K2, H = K1 ++ (some c, x) :: K2 ∧ x.pre.Addressable id ∧
      ∀ y ∈ History.own K2 c, y.label ≠ .receive c := by
  have hown : History.own (H ++ [(some c, e)]) c = H.own c ++ [e] := by
    rw [History.own_append, History.own_cons_self, History.own_nil]
  obtain ⟨s, auth, boundName, remote, script, w, -, -, -, hserve, ht⟩ :=
    hrun.follows c (by rw [hown]; simp)
  obtain ⟨t, hw, hlooks⟩ := looking_serve remote (messages c) _ () w hserve
  rw [hown, hw, List.nil_append] at ht
  obtain ⟨u, x, v, huv, hx, hv⟩ := (hlooks.initial ht) (H.own c) e [] id rfl hst
  obtain ⟨K1, K2, rfl, -, rfl⟩ := History.split_of_own huv
  exact ⟨K1, x, K2, rfl, hx, hv⟩

theorem HubRun.tidy (hrun : HubRun P messages H h) (hclean : CleanEvictions H) : h.Tidy := by
  induction hn : H.length using Nat.strongRecOn generalizing H h with
  | ind n ih =>
    rcases List.eq_nil_or_concat H with rfl | ⟨H', m, rfl⟩
    · obtain ⟨h0, hf, hu, hl⟩ := hrun.start
      obtain rfl := hl.of_nil
      refine ⟨fun id hid => ?_, fun id hid => ?_, fun name ch hch id hid => ?_⟩
      · simp [hf.mailbox] at hid
      · simp [hf.mailboxDropped] at hid
      · simp [hu name ch hch] at hid
    · rw [List.concat_eq_append] at hrun hclean hn
      have hprev : ∀ K1 m' K2, H' ++ [m] = K1 ++ m' :: K2 → m'.2.pre.Tidy := by
        intro K1 m' K2 hH
        rw [hH] at hrun hclean hn
        refine ih K1.length ?_ hrun.of_append hclean.of_append rfl
        rw [← hn, List.length_append, List.length_cons]
        omega
      have hpre : m.2.pre.Tidy := hprev H' m [] rfl
      have hmem : m ∈ H' ++ [m] := List.mem_append_right _ (List.mem_singleton_self m)
      obtain ⟨hbefore, rfl⟩ := hrun.of_concat
      obtain ⟨_ | c, e⟩ := m
      · exact (hrun.ambient e hmem).tidy
          (fun id he hpost => hclean.apart _ hmem id ⟨rfl, he, hpost⟩) hpre
      · refine hrun.last_act.tidy (fun _ ht => ht) (fun id hst => ?_)
          (fun id hent => hclean.known c e hmem id hent) hpre
        obtain ⟨K1, x, K2, rfl, hx, hK2⟩ := hrun.found_before hst
        have hreg : id ∈ x.pre.agents := by
          rcases hx with hreg | ⟨name, ch, hch, hid⟩
          · exact hreg
          · exact (hprev K1 (some c, x) (K2 ++ [(some c, e)]) (by simp)).members name ch hch id hid
        by_contra hlost
        obtain ⟨s, hs, hl⟩ := hbefore.initial
        obtain ⟨rfl, -⟩ := hl.of_cons
        obtain ⟨J1, m, J2, hJ, hev, hJ2⟩ := hbefore.lost hl hreg hlost
        -- the eviction came after the look-up, so the frame was not taken up after it
        cases J1 with
        | nil =>
          obtain ⟨rfl, -⟩ := List.cons.inj hJ
          exact Option.some_ne_none c hev.1
        | cons m' J1 =>
          obtain ⟨rfl, rfl⟩ := List.cons.inj hJ
          obtain ⟨y, hy, hrec⟩ := hclean.idle (K1 ++ (some c, x) :: J1) m J2 c e [] id (by simp) hev
            hJ2 hst
          refine hK2 y ?_ hrec
          change y ∈ History.own (J1 ++ m :: J2) c
          rw [History.own_append]
          exact List.mem_append_right _ (History.mem_own.mpr
            (List.mem_cons_of_mem _ (History.mem_own.mp hy)))

/-- Whoever was evicted and has said no hello since is not registered. -/
theorem HubRun.absent {H1 H2 : HubHistory} {m : Option ConnID × HubSection}
    (hrun : HubRun P messages (H1 ++ m :: H2) h) (hev : Evicts id m)
    (hno : ∀ m' ∈ H2, ¬ Greets id m') : id ∉ h.agents := by
  induction H2 using List.reverseRecOn generalizing h with
  | nil =>
    obtain ⟨-, rfl⟩ := hrun.of_concat
    rw [hev.2.2, (Hub.adminEvictLocked_evicted hev.2.1).1, GoMap.mem_erase_iff]
    exact fun hid => hid.1 rfl
  | append_singleton H2 m' ih =>
    rw [← List.cons_append, ← List.append_assoc] at hrun
    obtain ⟨hbefore, rfl⟩ := hrun.of_concat
    have hpre := ih hbefore fun m'' hm'' => hno m'' (List.mem_append_left _ hm'')
    have hm' := hno m' (List.mem_append_right _ (List.mem_singleton_self m'))
    obtain ⟨_ | c, e⟩ := m'
    · have hamb := hrun.ambient e (List.mem_append_right _ (List.mem_singleton_self _))
      exact fun hid => hpre ((hamb.agents id).1 hid)
    · intro hid
      rcases (hrun.last_act.agents (fun _ ht => ht) id).2 hid with hid | hgreets
      · exact hpre hid
      · exact hm' hgreets

theorem Hub.Tidy.not_target (ht : h.Tidy) (hid : id ∉ h.agents) {f : Frame} {t : Targets}
    (htargets : h.channelTargets P c f = .ok t) : id ∉ t.offline ∧ ∀ d, (id, d) ∉ t.online := by
  obtain ⟨ch, hch, -, rfl⟩ := Hub.channelTargets_member htargets
  exact ⟨fun hoff => hid (ht.members _ ch hch id (Hub.mem_offline hoff)),
    fun d hon => hid (ht.members _ ch hch id (Hub.mem_online hon).1)⟩

/-- In a run of clean evictions every mailbox and every overflow flag is of a registered agent, and
whoever was evicted and says no hello gets no mailbox and is no recipient of any channel send. -/
theorem evicted_forgotten (hrun : HubRun P messages H h) (hclean : CleanEvictions H) :
    (∀ id : String, id ∈ h.mailbox ∨ id ∈ h.mailboxDropped → id ∈ h.agents) ∧
      ∀ H1 m H2 id, H = H1 ++ m :: H2 → Evicts id m → (∀ m' ∈ H2, ¬ Greets id m') →
        id ∉ h.mailbox ∧ ∀ m' ∈ H2, id ∉ m'.2.post.mailbox ∧
          ∀ c f t, m'.2.pre.channelTargets P c f = .ok t →
            id ∉ t.offline ∧ ∀ d, (id, d) ∉ t.online := by
  refine ⟨fun id hid => hid.elim ((hrun.tidy hclean).mail id) ((hrun.tidy hclean).flags id), ?_⟩
  rintro H1 m H2 id rfl hev hno
  refine ⟨fun hid => hrun.absent hev hno ((hrun.tidy hclean).mail id hid), fun m' hm' => ?_⟩
  obtain ⟨A, B, rfl⟩ := List.append_of_mem hm'
  have hA : ∀ m'' ∈ A, ¬ Greets id m'' := fun m'' h => hno m'' (List.mem_append_left _ h)
  have hsplit : H1 ++ m :: (A ++ m' :: B) = (H1 ++ m :: A) ++ m' :: B := by simp
  have hsplit' : H1 ++ m :: (A ++ m' :: B) = (H1 ++ m :: (A ++ [m'])) ++ B := by simp
  constructor
  · rw [hsplit'] at hrun hclean
    obtain ⟨s, hs, hl⟩ := hrun.initial
    have hpost : s = m'.2.post := by
      rw [← List.cons_append, ← List.append_assoc] at hs
      exact hs.of_concat.2
    subst hpost
    refine fun hid => hs.absent hev (fun m'' h => ?_) ((hs.tidy hclean.of_append).mail id hid)
    rcases List.mem_append.mp h with h | h
    · exact hA m'' h
    · exact List.mem_singleton.mp h ▸ hno m' hm'
  · intro c f t ht
    rw [hsplit] at hrun hclean
    have hs := hrun.of_append
    exact (hs.tidy hclean.of_append).not_target (hs.absent hev hA) ht

end Runs

/-! ### Samples -/

/-- The agent of the sample hello. -/
def alice : String := helloAgentID lenientPlatform (sampleHello 0).pubkey

/-- The agent of the peer's hello. -/
def bob : String := helloAgentID lenientPlatform peerHello.pubkey

def carolHello : Frame :=
  { peerHello with pubkey := "AgICAgICAgICAgICAgICAgICAgICAgICAgICAgICAgI=", name := "carol" }

def joinRoom : Frame := { op := "join", channel := "room" }

theorem Evicts.agents {m : Option ConnID × HubSection} (h : Evicts id m) :
    id ∈ m.2.pre.agents ∧ m.2.post.agents = m.2.pre.agents.erase id := by
  obtain ⟨-, hev, hpost⟩ := h
  refine ⟨?_, hpost ▸ (Hub.adminEvictLocked_evicted hev).1⟩
  by_contra hid
  have hnone : m.2.pre.agents[id]? = none := Std.ExtTreeMap.getElem?_eq_none hid
  unfold Hub.adminEvictLocked at hev
  simp [hnone] at hev

theorem not_evicts {m : Option ConnID × HubSection} (h : m.2.post.agents = m.2.pre.agents) :
    ¬ Evicts id m := by
  intro hev
  obtain ⟨hid, hpost⟩ := hev.agents
  rw [← h, hpost, GoMap.mem_erase_iff] at hid
  exact hid.1 rfl

theorem not_evicts_of {c : ConnID} {t : List HubSection} {m : Option ConnID × HubSection}
    (h : m ∈ History.of c t) : ¬ Evicts id m := by
  obtain ⟨y, -, rfl⟩ := List.mem_map.mp h
  exact fun hev => Option.some_ne_none c hev.1

theorem Evicts.unique {m : Option ConnID × HubSection} {id' : String} (h : Evicts id m)
    (h' : Evicts id' m) : id' = id := by
  obtain ⟨-, hpost⟩ := h.agents
  obtain ⟨hpre, hpost'⟩ := h'.agents
  by_contra hne
  have hkept : id' ∈ m.2.post.agents := by
    rw [hpost, GoMap.mem_erase_iff]
    exact ⟨fun h => hne h.symm, hpre⟩
  rw [hpost', GoMap.mem_erase_iff] at hkept
  exact hkept.1 rfl

/-- Whoever is a member of a channel is registered, or was a member before. -/
def entersKnown (e : HubSection) : Bool :=
  e.post.channels.toList.all fun kv => kv.2.members.keys.all fun id =>
    e.pre.agents.contains id || e.pre.channels[kv.1]?.any fun ch => ch.members.contains id

theorem Enters.known {e : HubSection} (he : entersKnown e = true) (h : Enters id e) :
    id ∈ e.pre.agents := by
  obtain ⟨name, ch, hch, hid, hnew⟩ := h
  simp only [entersKnown, List.all_eq_true, Bool.or_eq_true, Option.any_eq_true,
    Std.ExtTreeMap.contains_iff_mem] at he
  rcases he (name, ch) (GoMap.mem_toList.mpr hch) id (Std.ExtTreeMap.mem_keys.mpr hid) with
    hreg | ⟨ch0, hch0, hold⟩
  · exact hreg
  · exact absurd hold (hnew ch0 hch0)

/-- Nothing is stored before the first frame is taken up. -/
def receivesFirst (c : ConnID) (t : List HubSection) : Bool :=
  (t.takeWhile fun e => e.label ≠ .receive c).all fun e =>
    match e.label with
    | .enqueue _ _ => false
    | _ => true

theorem Stores.received {t u v : List HubSection} {e : HubSection}
    (ht : receivesFirst c t = true) (hsplit : t = u ++ e :: v) (hst : Stores id e) :
    ∃ y ∈ u, y.label = .receive c := by
  subst hsplit
  by_contra hno
  obtain ⟨f, hf⟩ := hst
  have hu : ∀ y ∈ u, decide (y.label ≠ .receive c) = true := fun y hy =>
    decide_eq_true fun hl => hno ⟨y, hy, hl⟩
  unfold receivesFirst at ht
  rw [List.takeWhile_append_of_pos hu, List.takeWhile_cons_of_pos (by simp [hf]),
    List.all_append, List.all_cons] at ht
  simp [hf] at ht

/-- A history is cut at its only section of a kind in one way. -/
theorem History.split_unique {p : Option ConnID × HubSection → Prop} {A A' B B' : HubHistory}
    {m m' : Option ConnID × HubSection} (h : A ++ m :: B = A' ++ m' :: B') (hm' : p m')
    (hA : ∀ x ∈ A, ¬ p x) (hB : ∀ x ∈ B, ¬ p x) : A = A' ∧ m = m' ∧ B = B' := by
  rcases append_cut h with ⟨r, rfl, hr⟩ | ⟨r, rfl, -⟩
  · cases r with
    | nil => simpa using hr
    | cons x r =>
      obtain ⟨-, rfl⟩ := List.cons.inj hr
      exact absurd hm' (hB m' (by simp))
  · exact absurd hm' (hA m' (by simp))

/-- A single eviction, of an agent that is a member of no channel, before a connection is opened. -/
theorem CleanEvictions.of_single {m : Option ConnID × HubSection} {H1 : HubHistory}
    {o : HubSection} {c : ConnID} {t : List HubSection} (hm : Evicts id m)
    (hbefore : ∀ m' ∈ H1, ¬ ∃ id, Evicts id m') (ho : ¬ ∃ id, Evicts id (none, o))
    (hapart : ∀ (name : String) ch, m.2.pre.channels[name]? = some ch → id ∉ ch.members)
    (hknown : ∀ d e, (some d, e) ∈ H1 ++ m :: (none, o) :: History.of c t → entersKnown e = true)
    (hfirst : receivesFirst c t = true) :
    CleanEvictions (H1 ++ m :: (none, o) :: History.of c t) := by
  have hafter : ∀ m' ∈ (none, o) :: History.of c t, ¬ ∃ id, Evicts id m' := by
    rintro m' hm' ⟨id', hev⟩
    rcases List.mem_cons.mp hm' with rfl | hm'
    · exact ho ⟨id', hev⟩
    · exact not_evicts_of hm' hev
  constructor
  · intro m' hm' id' hev name ch hch
    obtain rfl : m' = m := by
      rcases List.mem_append.mp hm' with hm' | hm'
      · exact absurd ⟨id', hev⟩ (hbefore m' hm')
      · rcases List.mem_cons.mp hm' with hm' | hm'
        · exact hm'
        · exact absurd ⟨id', hev⟩ (hafter m' hm')
    exact hm.unique hev ▸ hapart name ch hch
  · exact fun d e he id hent => hent.known (hknown d e he)
  · intro A m' B d e D id' hH hev hgreets hst
    obtain ⟨-, -, hB⟩ := History.split_unique hH ⟨id', hev⟩ hbefore hafter
    have hmem : (some d, e) ∈ (none, o) :: History.of c t :=
      hB ▸ List.mem_append_right _ List.mem_cons_self
    obtain rfl : d = c := by
      rcases List.mem_cons.mp hmem with hmem | hmem
      · exact absurd (congrArg Prod.fst hmem) (Option.some_ne_none d)
      · obtain ⟨y, -, hy⟩ := List.mem_map.mp hmem
        exact (Option.some.inj (congrArg Prod.fst hy)).symm
    have hown : t = History.own B d ++ e :: History.own D d := by
      have hserved : History.own ((none, o) :: History.of d t) d = t :=
        (History.own_cons_of_ne (by simp) _).trans (History.own_of_self d _)
      rw [← hserved, hB, History.own_append, History.own_cons_self]
    exact hst.received hfirst hown

/-- The one who is evicted, the one who wrote to it, and the one who writes on the channel later. -/
def partingMessages (c : ConnID) : List Message :=
  if c = 0 then [wire (sampleHello 0)]
  else if c = 1 then [wire peerHello, wire joinRoom, wire { sampleDM with «to» := alice }]
  else [wire carolHello, wire joinRoom, wire sampleChannelSend]

/-- An agent is evicted while mail waits for it; the channel goes on without it, and the next
message there is stored for a member who is away. -/
theorem evicted_forgotten_sample : ∃ H1 m H2 h,
    HubRun lenientPlatform partingMessages (H1 ++ m :: H2) h ∧ Evicts alice m ∧
      alice ∈ m.2.pre.mailbox ∧ bob ∈ h.mailbox ∧
      (∃ m' ∈ H2, ∃ c f t, m'.2.pre.channelTargets lenientPlatform c f = .ok t ∧
        bob ∈ t.offline) ∧
      (∀ id : String, id ∈ h.mailbox ∨ id ∈ h.mailboxDropped → id ∈ h.agents) ∧
      alice ∉ h.mailbox ∧ ∀ m' ∈ H2, alice ∉ m'.2.post.mailbox ∧
        ∀ c f t, m'.2.pre.channelTargets lenientPlatform c f = .ok t →
          alice ∉ t.offline ∧ ∀ d, (alice, d) ∉ t.online := by
  have hruns : ((alone (serve lenientPlatform 0 "" (partingMessages 0))
      (({} : Hub).openConn 0 .master "")).bind fun r0 =>
        (alone (serve lenientPlatform 1 "" (partingMessages 1))
          (r0.2.state.openConn 1 .master "")).bind fun r1 =>
            (alone (serve lenientPlatform 2 "" (partingMessages 2))
              ((r1.2.state.adminEvictLocked alice).2.openConn 2 .master "")).map fun r2 =>
                decide ((r0.2.state.conns 1).stage = .absent) &&
                decide ((r1.2.state.adminEvictLocked alice).1 = .evicted) &&
                decide (((r1.2.state.adminEvictLocked alice).2.conns 2).stage = .absent) &&
                (r1.2.state.channels.toList.all fun kv => !kv.2.members.contains alice) &&
                ((r0.2.trace ++ r1.2.trace ++ r2.2.trace).all entersKnown) &&
                (r2.2.trace.all fun e => decide ((e.pre.conns 2).agentID ≠ alice)) &&
                receivesFirst 2 r2.2.trace && r1.2.state.mailbox.contains alice &&
                r2.2.state.mailbox.contains bob && r2.2.trace.any fun e =>
                  (e.pre.channelTargets lenientPlatform 2 sampleChannelSend).toOption.any
                    fun t => t.offline.contains bob) = some true := by
    decide +kernel
  obtain ⟨⟨_, w0⟩, hw0, hruns⟩ := Option.bind_eq_some_iff.mp hruns
  obtain ⟨⟨_, w1⟩, hw1, hruns⟩ := Option.bind_eq_some_iff.mp hruns
  obtain ⟨⟨_, w2⟩, hw2, htrue⟩ := Option.map_eq_some_iff.mp hruns
  simp only [Bool.and_eq_true, decide_eq_true_eq, List.all_eq_true, List.any_eq_true,
    Bool.not_eq_true', Std.ExtTreeMap.contains_iff_mem, Option.any_eq_true,
    List.contains_iff_mem, List.mem_append] at htrue
  obtain ⟨⟨⟨⟨⟨⟨⟨⟨⟨habsent1, hev⟩, habsent2⟩, hapart⟩, hknown⟩, hother⟩, hfirst⟩, hmail⟩, hbob⟩,
    x, hx, t, ht, hoff⟩ := htrue
  let s : Hub := (w1.state.adminEvictLocked alice).2
  let o0 : HubSection := ⟨.config, {}, ({} : Hub).openConn 0 .master "", true⟩
  let o1 : HubSection := ⟨.config, w0.state, w0.state.openConn 1 .master "", true⟩
  let o2 : HubSection := ⟨.config, s, s.openConn 2 .master "", true⟩
  let m : Option ConnID × HubSection := (none, ⟨.mu, w1.state, s, true⟩)
  let H1 : HubHistory :=
    [] ++ [(none, o0)] ++ History.of 0 w0.trace ++ [(none, o1)] ++ History.of 1 w1.trace
  let H2 : HubHistory := (none, o2) :: History.of 2 w2.trace
  have hrun1 := ((HubRun.fresh (P := lenientPlatform) partingMessages).served rfl rfl hw0).served
    (c := 1) (by
      rw [History.own_append, History.own_append, History.own_of_of_ne (by decide)]
      rfl) habsent1 hw1
  have hrun : HubRun lenientPlatform partingMessages (H1 ++ m :: H2) w2.state := by
    have hrun2 := (hrun1.acted (e := m.2) (.evicted alice)).served (c := 2) (by
      rw [History.own_append, History.own_append, History.own_append, History.own_append,
        History.own_of_of_ne (by decide), History.own_append, History.own_of_of_ne (by decide)]
      rfl) habsent2 hw2
    rw [List.append_assoc, List.append_assoc] at hrun2
    exact hrun2
  have hm : Evicts alice m := ⟨rfl, hev, rfl⟩
  have hbefore : ∀ m' ∈ H1, ¬ ∃ id, Evicts id m' := by
    rintro m' hm' ⟨id, hev'⟩
    simp only [H1, List.mem_append, List.mem_singleton, List.not_mem_nil, false_or] at hm'
    rcases hm' with ((rfl | hm') | rfl) | hm'
    · exact not_evicts rfl hev'
    · exact not_evicts_of hm' hev'
    · exact not_evicts rfl hev'
    · exact not_evicts_of hm' hev'
  have hclean : CleanEvictions (H1 ++ m :: H2) := by
    refine .of_single hm hbefore (fun hev' => ?_) (fun name ch hch => ?_) (fun d e he => ?_) hfirst
    · obtain ⟨id, hev'⟩ := hev'
      exact not_evicts rfl hev'
    · have hfree := hapart (name, ch) (GoMap.mem_toList.mpr hch)
      rwa [← Bool.not_eq_true, Std.ExtTreeMap.contains_iff_mem] at hfree
    · have hin : e ∈ w0.trace ∧ 0 = d ∨ e ∈ w1.trace ∧ 1 = d ∨ e ∈ w2.trace ∧ 2 = d := by
        simpa [H1, m, History.of] using he
      apply hknown
      rcases hin with ⟨he, -⟩ | ⟨he, -⟩ | ⟨he, -⟩
      · exact .inl (.inl he)
      · exact .inl (.inr he)
      · exact .inr he
  have hgreets : ∀ m' ∈ H2, ¬ Greets alice m' := by
    rintro m' hm' ⟨c, hc, hid, -⟩
    rcases List.mem_cons.mp hm' with rfl | hm'
    · exact absurd hc.symm (Option.some_ne_none c)
    · obtain ⟨y, hy, rfl⟩ := List.mem_map.mp hm'
      obtain rfl := Option.some.inj hc
      exact hother y hy hid
  have hforgot := evicted_forgotten hrun hclean
  obtain ⟨hgone, hnever⟩ := hforgot.2 _ m _ alice rfl hm hgreets
  refine ⟨H1, m, H2, w2.state, hrun, hm, hmail, hbob,
    ⟨(some 2, x), ?_, 2, sampleChannelSend, t, ?_, hoff⟩, hforgot.1, hgone, hnever⟩
  · exact List.mem_cons_of_mem _ (List.mem_map.mpr ⟨x, hx, rfl⟩)
  · cases hct : x.pre.channelTargets lenientPlatform 2 sampleChannelSend with
    | error e => simp [hct, Except.toOption] at ht
    | ok t' => simpa [hct, Except.toOption] using ht

/-- The one who leaves, and the one who writes. -/
def roomMessages (c : ConnID) : List Message :=
  if c = 0 then [wire (sampleHello 0), wire joinRoom]
  else [wire peerHello, wire joinRoom, wire sampleChannelSend]

/-- A member of a channel leaves and is evicted; the next message on the channel is for it. -/
theorem evicted_member_mailed : ∃ H1 m H2 h,
    HubRun lenientPlatform roomMessages (H1 ++ m :: H2) h ∧ Evicts alice m ∧
      (∀ m' ∈ H2, ¬ Greets alice m') ∧ alice ∈ h.mailbox ∧ alice ∉ h.agents ∧
      ∃ m' ∈ H2, ∃ c f t, m'.2.pre.channelTargets lenientPlatform c f = .ok t ∧
        alice ∈ t.offline := by
  have hruns : ((alone (serve lenientPlatform 0 "" (roomMessages 0))
      (({} : Hub).openConn 0 .master "")).bind fun r =>
        (alone (serve lenientPlatform 1 "" (roomMessages 1))
          ((r.2.state.adminEvictLocked alice).2.openConn 1 .master "")).map fun r' =>
            decide ((r.2.state.adminEvictLocked alice).1 = .evicted) &&
            decide (((r.2.state.adminEvictLocked alice).2.conns 1).stage = .absent) &&
            (r'.2.trace.all fun e => decide ((e.pre.conns 1).agentID ≠ alice)) &&
            r'.2.state.mailbox.contains alice &&
            r'.2.trace.any fun e =>
              (e.pre.channelTargets lenientPlatform 1 sampleChannelSend).toOption.any
                fun t => t.offline.contains alice) = some true := by
    decide +kernel
  obtain ⟨⟨_, w⟩, hw, hruns⟩ := Option.bind_eq_some_iff.mp hruns
  obtain ⟨⟨_, w'⟩, hw', htrue⟩ := Option.map_eq_some_iff.mp hruns
  simp only [Bool.and_eq_true, decide_eq_true_eq, List.all_eq_true, List.any_eq_true,
    Std.ExtTreeMap.contains_iff_mem, Option.any_eq_true, List.contains_iff_mem] at htrue
  obtain ⟨⟨⟨⟨hev, habsent⟩, hother⟩, hmail⟩, x, hx, t, ht, halice⟩ := htrue
  let s : Hub := (w.state.adminEvictLocked alice).2
  let m : Option ConnID × HubSection := (none, ⟨.mu, w.state, s, true⟩)
  let o : Option ConnID × HubSection := (none, ⟨.config, s, s.openConn 1 .master "", true⟩)
  have hleft := ((HubRun.fresh (P := lenientPlatform) roomMessages).served rfl rfl hw).acted
    (e := m.2) (.evicted alice)
  have hown : History.own ([] ++ [(none, ⟨.config, ({} : Hub), ({} : Hub).openConn 0 .master "",
      true⟩)] ++ History.of (0 : ConnID) w.trace ++ [(none, m.2)]) (1 : ConnID) = [] := by
    rw [History.own_append, History.own_append, History.own_of_of_ne (by decide)]
    rfl
  have hrun := hleft.served hown habsent hw'
  have hm : Evicts alice m := ⟨rfl, hev, rfl⟩
  have hgreets : ∀ m' ∈ o :: History.of 1 w'.trace, ¬ Greets alice m' := by
    rintro m' hm' ⟨c, hc, hid, -⟩
    rcases List.mem_cons.mp hm' with rfl | hm'
    · exact absurd hc.symm (Option.some_ne_none c)
    · obtain ⟨y, hy, rfl⟩ := List.mem_map.mp hm'
      obtain rfl := Option.some.inj hc
      exact hother y hy hid
  rw [List.append_assoc, List.append_assoc] at hrun
  refine ⟨_, m, o :: History.of 1 w'.trace, w'.state, hrun, hm, hgreets, hmail,
    hrun.absent hm hgreets, (some 1, x), ?_, 1, sampleChannelSend, t, ?_, halice⟩
  · exact List.mem_cons_of_mem _ (List.mem_map.mpr ⟨x, hx, rfl⟩)
  · cases hct : x.pre.channelTargets lenientPlatform 1 sampleChannelSend with
    | error e => simp [hct, Except.toOption] at ht
    | ok t' => simpa [hct, Except.toOption] using ht

end Dap
