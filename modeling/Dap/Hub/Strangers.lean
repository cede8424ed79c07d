import Dap.Hub.Directory
import Dap.Hub.Eviction

/-! What connections get over which no verified hello has come in: refusals and nothing else. -/
namespace Dap
open Proc

variable {P : Platform} {c d : ConnID} {past : List HubSection}

def Reply.Refusal (r : Reply) : Prop := ∃ code msg, r = .frame (errorFrame code msg)

/-- One of the sections sees the connection authenticated, or as that of an agent. -/
def Entered (c : ConnID) (past : List HubSection) : Prop :=
  ∃ e ∈ past, (e.pre.conns c).authed = true ∨ (e.post.conns c).authed = true ∨
    ∃ id : String, e.pre.clients[id]? = some c

theorem lasting_entered : Lasting (Entered c) := by
  rintro past e ⟨x, hx, hin⟩
  exact ⟨x, List.mem_append_left _ hx, hin⟩

/-- What a connection sends once it has entered: answers, messages and announcements. -/
def memberScope (P : Platform) (c : ConnID) : Scope where
  writes := OwnWrite P
  sends d r := d = c ∨ r.isMsg = true ∨ ∃ id a, r = .frame (presenceBroadcast id a)
  stores _ _ := True
  does := Task P c

/-- What it sends before. -/
def guestScope (P : Platform) (c : ConnID) : Scope where
  writes := OwnWrite P
  sends _ r := r.Refusal
  stores _ _ := True
  does := Task P c

/-- What the read loop may do after these sections. -/
def welcomeScope (P : Platform) (c : ConnID) (past : List HubSection) : Scope where
  writes := OwnWrite P
  sends d r := (guestScope P c).sends d r ∨ (Entered c past ∧ (memberScope P c).sends d r)
  stores _ _ := True
  does := Task P c

theorem memberScope_serves : (memberScope P c).Serves P c :=
  ⟨fun _ hf => hf, fun _ _ => .inl rfl, fun _ id e => .inr (.inr ⟨id, e, rfl⟩), fun _ he => he⟩

theorem guestScope_refuses (code : String) : (guestScope P c).Refuses c code :=
  ⟨.code code, fun msg => ⟨code, msg, rfl⟩⟩

section Programs

variable {α β : Type} {Q : List HubSection → Prop} {p : HubProc α}

abbrev Welcomes (P : Platform) (c : ConnID) (Q : List HubSection → Prop) (p : HubProc α) : Prop :=
  Guided (fun past e => Act c (welcomeScope P c past) e) Q p

theorem welcomes_of_guest {e : HubSection} (he : Act c (guestScope P c) e) :
    Act c (welcomeScope P c past) e := by
  have hwrites : ∀ w, (guestScope P c).writes w → (welcomeScope P c past).writes w :=
    fun _ h => h
  exact he.mono hwrites (fun _ _ h => .inl h) (fun _ _ h => h) fun _ h => h

theorem welcomes_guest (hp : Emits (Act c (guestScope P c)) p) : Welcomes P c Q p :=
  (Guided.of_emits (Q := fun _ => True) hp (fun _ _ _ => trivial)
    fun _ _ _ => welcomes_of_guest).mono fun _ _ => trivial

theorem welcomes_bind_guest {k : α → HubProc β} (hp : Emits (Act c (guestScope P c)) p)
    (hQ : Lasting Q) (hk : ∀ a, Welcomes P c Q (k a)) : Welcomes P c Q (p >>= k) :=
  Guided.bind_emits hp hQ (fun _ _ _ => welcomes_of_guest) hk

theorem welcomes_member (hp : Emits (Act c (memberScope P c)) p) :
    Welcomes P c (Entered c) p := by
  refine Guided.of_emits hp lasting_entered fun past e hin he => ?_
  have hwrites : ∀ w, (memberScope P c).writes w → (welcomeScope P c past).writes w :=
    fun _ h => h
  exact he.mono hwrites (fun _ _ h => .inr ⟨hin, h⟩) (fun _ _ h => h) fun _ h => h

/-! ### The programs -/

theorem welcomes_deregister : Welcomes P c Q (deregister c) := by
  unfold deregister
  refine Guided.mono (Q := fun _ => True) ?_ fun _ _ => trivial
  refine welcomes_bind_guest (Emits.modify fun _ _ => .dropped) (fun _ _ _ => trivial) fun _ => ?_
  refine Guided.bind_guarded (R := fun e past => e ∈ past)
    (fun _ _ _ _ _ _ hd => .other (.left hd)) (fun past e _ => by simp) fun pick s left s' hd => ?_
  split
  · exact .pure _
  next a peers =>
    obtain ⟨hclient, -⟩ := Hub.deregisterLocked_found hd
    refine Guided.mono (Q := Entered c) (welcomes_member ?_) fun past he =>
      ⟨_, he, .inr (.inr ⟨_, hclient⟩)⟩
    exact Emits.bind (Act.read rfl) fun _ => Emits.bind (Act.readEntry _) fun _ =>
      Act.sendPresence memberScope_serves.announce _ _ _

theorem welcomes_welcome (f : Frame) : Welcomes P c Q (welcome P c f) := by
  unfold welcome
  refine Guided.mono (Q := fun _ => True) ?_ fun _ _ => trivial
  refine welcomes_bind_guest (Act.read rfl) (fun _ _ _ => trivial) fun k => ?_
  split
  · exact welcomes_guest (Act.reject (guestScope_refuses _) _)
  refine Guided.bind_atomically (R := fun e past =>
    e.post = (e.pre.updConn c fun k => k.authenticated P f) → Entered c past)
    (fun past s pick _ => ?_) ?_ fun s pick => ?_
  · change Act c _ ⟨.own c, s, s.updConn c fun k => k.authenticated P f, pick⟩
    exact .wrote (OwnWrite.greeted f)
  · intro past e _ hpost
    refine ⟨e, by simp, .inr (.inl ?_)⟩
    rw [hpost, Hub.updConn_conns_self]
    rfl
  refine Guided.mono (Q := Entered c) (welcomes_member ?_) fun past h => h rfl
  exact Emits.bind (Act.register memberScope_serves.announce memberScope_serves.task) fun _ =>
    Emits.bind (Act.answer memberScope_serves rfl) fun _ => Emits.pure _

theorem welcomes_handleHello (f : Frame) (raw : Raw) :
    Welcomes P c Q (handleHello P c f raw) := by
  unfold handleHello
  refine Guided.mono (Q := fun _ => True) ?_ fun _ _ => trivial
  refine welcomes_bind_guest (Act.setOwn (.traced f)) (fun _ _ _ => trivial) fun _ => ?_
  refine welcomes_bind_guest (Act.logf _ _) (fun _ _ _ => trivial) fun _ => ?_
  refine welcomes_bind_guest (Act.read rfl) (fun _ _ _ => trivial) fun k => ?_
  split
  · exact welcomes_guest (Act.sendErr (guestScope_refuses _) _)
  refine welcomes_bind_guest (Act.does fun _ _ => .checked f raw) (fun _ _ _ => trivial) fun r => ?_
  split
  · exact welcomes_guest (Act.reject (guestScope_refuses _) _)
  · exact welcomes_welcome f

theorem welcomes_handler {f : Frame} {raw : Raw} {op : String} {handle : HubProc Unit}
    (hQ : ∀ past, Q past → op ≠ "hello" → Entered c past)
    (hh : handler P c op f raw = some handle) : Welcomes P c Q handle := by
  by_cases hop : op = "hello"
  · subst hop
    have hhandle : handler P c "hello" f raw = some (handleHello P c f raw) := if_pos rfl
    obtain rfl := Option.some.inj (hh.symm.trans hhandle)
    exact welcomes_handleHello f raw
  · refine Guided.mono (welcomes_member ?_) fun past hq => hQ past hq hop
    have hserves : (memberScope P c).Serves P c := memberScope_serves
    have hrouted : ∀ sender, (Reply.frame (routed sender f)).isMsg = true := by
      intro sender
      unfold routed
      split
      · rfl
      · rfl
    exact Act.handler hserves
      (fun _ => Act.handleSend hserves.refuses (fun _ _ => .looked) (fun _ _ _ _ => .latched _ _)
        (fun _ sender => .inr (.inl (hrouted sender))) (fun _ _ => trivial) raw)
      (fun _ => Act.handleFlush hserves fun _ => .inl rfl) hh

theorem welcomes_dispatch (data : Bytes) : Welcomes P c Q (dispatch P c data) := by
  have hlog : ∀ op id code (Q : List HubSection → Prop), Welcomes P c Q (logOp c op id code) :=
    fun _ _ _ _ => welcomes_guest (Act.logf _ _)
  have hrefuse : ∀ code msg (Q : List HubSection → Prop), Welcomes P c Q (sendErr c code msg) :=
    fun code msg _ => welcomes_guest (Act.sendErr (guestScope_refuses code) msg)
  unfold dispatch
  refine Guided.mono (Q := fun _ => True) ?_ fun _ _ => trivial
  refine welcomes_bind_guest (Act.setOwn (.code "")) (fun _ _ _ => trivial) fun _ => ?_
  split
  · exact Guided.bind (hrefuse _ _ _) fun _ => hlog _ _ _ _
  next f raw hparse =>
    unfold dispatchFrame ownConn
    refine Guided.bind_atomically (R := fun e past => (e.pre.conns c).authed = true →
      Entered c past) (fun _ _ _ _ => .observed rfl)
      (fun past e _ ha => ⟨e, by simp, .inl ha⟩) fun s pick => ?_
    dsimp only
    split
    · exact Guided.bind (hrefuse _ _ _) fun _ => hlog _ _ _ _
    next hop =>
      refine welcomes_bind_guest (Act.does fun _ _ => .touched _)
        (fun past e h ha => lasting_entered past e (h ha)) fun _ => ?_
      split
      next handle hh =>
        refine Guided.bind (welcomes_handler (fun past h hne => h ?_) hh) fun _ => hlog _ _ _ _
        by_contra hauth
        exact hop ⟨hauth, hne⟩
      · exact Guided.bind (hrefuse _ _ _) fun _ => hlog _ _ _ _

theorem welcomes_readLoop (messages : List Message) : Welcomes P c Q (readLoop P c messages) := by
  refine Guided.mono (Q := fun _ => True) ?_ fun _ _ => trivial
  induction messages with
  | nil => exact .pure _
  | cons m rest ih =>
    unfold readLoop
    refine welcomes_bind_guest (Act.read rfl) (fun _ _ _ => trivial) fun closed => ?_
    split
    · exact .pure _
    · cases m with
      | binary data =>
        exact Guided.bind (welcomes_guest (Act.sendErr (guestScope_refuses _) _)) fun _ => ih
      | text data =>
        dsimp only
        split
        · exact welcomes_guest (Act.reject (guestScope_refuses _) _)
        · exact Guided.bind (welcomes_dispatch data) fun _ => ih

theorem serve_welcomes (remote : String) (messages : List Message) :
    Welcomes P c (fun _ => True) (serve P c remote messages) :=
  Guided.bind (welcomes_guest (Act.logf _ _)) fun _ =>
    Guided.bind (welcomes_readLoop messages) fun _ =>
      Guided.bind welcomes_deregister fun _ => welcomes_guest (Act.logf _ _)

end Programs

/-! ### Whole runs -/

section Runs

variable {messages : ConnID → List Message} {H H1 H2 : HubHistory} {h : Hub} {r : Reply}
  {e : HubSection}

theorem Act.queues {S : Scope} (he : Act c S e) (hd : ∀ e, S.does e → Task P c e)
    (hl : e.label = .select d r) :
    S.sends d r ∧ (e.post.conns d).authed = (e.pre.conns d).authed := by
  cases he with
  | @pushed s pick d' r' hr hroom =>
    obtain ⟨rfl, rfl⟩ := Label.select.inj hl
    let push : Conn → Conn := fun k => { k with send := k.send ++ [r'] }
    exact ⟨hr, s.field_updConn (f := push) (π := Conn.authed) (fun _ => rfl) d' d'⟩
  | missed hr =>
    obtain ⟨rfl, rfl⟩ := Label.select.inj hl
    exact ⟨hr, rfl⟩
  | @observed label s pick hobs =>
    change label = Label.select d r at hl
    rw [hl] at hobs
    cases hobs
  | other he =>
    cases hd _ he with
    | _ => cases hl
  | _ => cases hl

/-- Whoever has entered is authenticated. -/
theorem HubRun.entered (hrun : HubRun P messages H h) (he : Entered c (H.own c)) :
    (h.conns c).authed = true := by
  obtain ⟨x, hx, hin⟩ := he
  obtain ⟨H1, H2, rfl⟩ := List.append_of_mem (History.mem_own.mp hx)
  have hi : Coherent P x.pre := .reachable hrun.of_append.reachable
  have hpre : (x.pre.conns c).authed = true → (h.conns c).authed = true := fun hauth =>
    (hrun.speaksFor (m := (some c, x)) ⟨hauth, rfl, rfl⟩).1.1
  rcases hin with hauth | hauth | ⟨id, hclient⟩
  · exact hpre hauth
  · rcases H2 with _ | ⟨m, H2⟩
    · rwa [hrun.of_concat.2]
    · have hsplit : H1 ++ (some c, x) :: m :: H2 = (H1 ++ [(some c, x)]) ++ m :: H2 := by simp
      rw [hsplit] at hrun
      have hend := hrun.of_append.of_concat.2
      rw [← hend] at hauth
      exact (hrun.speaksFor ⟨hauth, rfl, rfl⟩).1.1
  · exact hpre (hi.speaksFor hclient).1

/-- In every run of the hub only refusals are queued for a connection over which no verified hello
has come in. -/
theorem strangers_told_nothing {o : Option ConnID}
    (hrun : HubRun P messages (H1 ++ (o, e) :: H2) h) (hq : Queues d r e) :
    r.Refusal ∨ ∃ f, Said P d (messages d) (H1.own d) f ∧
      (e.pre.conns d).agentID = helloAgentID P f.pubkey := by
  have hbefore : HubRun P messages H1 e.pre := hrun.of_append
  have hsplit : H1 ++ (o, e) :: H2 = (H1 ++ [(o, e)]) ++ H2 := by simp
  rw [hsplit] at hrun
  obtain ⟨s, hrun, -⟩ := hrun.initial
  have hsaid : (e.pre.conns d).authed = true → ∃ f, Said P d (messages d) (H1.own d) f ∧
      (e.pre.conns d).agentID = helloAgentID P f.pubkey := by
    intro hauth
    obtain ⟨f, hf, hid, -⟩ := hbefore.listed.said d hauth
    exact ⟨f, hf, hid⟩
  obtain ⟨hl, hpush⟩ := hq
  cases o with
  | none =>
    have hlen := (hrun.ambient e (by simp)).send_length (p := d)
    rw [hpush, List.length_append, List.length_singleton] at hlen
    omega
  | some c =>
    have hact := hrun.last_obeys fun remote => serve_welcomes remote (messages c)
    obtain ⟨hsends, hsame⟩ := hact.queues (fun _ ht => ht) hl
    rcases hsends with hrefuse | ⟨hin, rfl | hmsg | ⟨id, a, rfl⟩⟩
    · exact .inl hrefuse
    · exact .inr (hsaid (hbefore.entered hin))
    · -- the recipient of a message was found in the connection map
      cases r with
      | enrolled secret => cases hmsg
      | frame g =>
        obtain rfl := hrun.of_concat.2
        have hmem : .frame g ∈ (e.post.conns d).send := by
          rw [hpush]
          exact List.mem_append_right _ (List.mem_singleton_self _)
        have hauth := (hrun.backed.queued d g hmem (of_decide_eq_true hmsg)).1
        exact .inr (hsaid (hsame.symm.trans hauth))
    · -- so was a peer that hears of an agent
      have hinformed : Informed d id a.online e :=
        ⟨_, ⟨hl, hpush⟩, _, rfl, rfl, _, List.mem_singleton_self _, rfl, rfl⟩
      obtain ⟨K1, x, K2, rfl, -, -, ⟨-, -, member, name, ch, hclient, -⟩ | ⟨rfl, -⟩⟩ :=
        hrun.grounded hinformed
      · have hafter : K1 ++ (some c, x) :: K2 ++ [(some c, e)] =
            K1 ++ (some c, x) :: (K2 ++ [(some c, e)]) := by simp
        rw [hafter] at hrun
        obtain ⟨who, hstep⟩ := hrun.step (m := (some c, x)) (by simp)
        have hi : Coherent P x.post := .reachable (hrun.of_append.reachable.step hstep)
        have hspeaks := hrun.speaksFor_after (m := (some c, x)) (hi.speaksFor hclient)
        exact .inr (hsaid (hspeaks (some c, e) (by simp)).1)
      · exact .inr (hsaid (hbefore.entered hin))

end Runs

theorem strangers_told_nothing_sample : ∃ H1 o e H2 h d r f,
    HubRun lenientPlatform reunionMessages (H1 ++ (o, e) :: H2) h ∧ Queues d r e ∧
      ¬ r.Refusal ∧ Said lenientPlatform d (reunionMessages d) (History.own H1 d) f := by
  obtain ⟨H1, c, e, H2, h, d, b, hrun, r, hq, g, rfl, hop, -⟩ := reunion_told
  have hno : ¬ (Reply.frame g).Refusal := by
    rintro ⟨code, msg, heq⟩
    rw [Reply.frame.inj heq] at hop
    have herr : "error" = "presence" := hop
    exact absurd herr (by decide)
  rcases strangers_told_nothing hrun hq with hrefuse | ⟨f, hf, -⟩
  · exact absurd hrefuse hno
  · exact ⟨H1, some c, e, H2, h, d, _, f, hrun, hq, hno, hf⟩

end Dap
