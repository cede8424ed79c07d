import Dap.Hub.Mailbox
import Dap.Hub.System

/-! Where the messages in queues and mailboxes come from: what a read loop may queue, given what it
has done before, and from it the origin of every message anywhere in a run of the hub. -/
namespace Dap
open Proc

variable {P : Platform} {c d : ConnID} {messages : List Message} {past : List HubSection}

/-- A send, with the sections in which `conn` looked at what decides about it. -/
structure SendAttempt where
  conn : ConnID
  frame : Frame
  raw : Raw
  key : HubSection
  clock : HubSection
  look : HubSection
  agent : HubSection
  route : HubSection

namespace SendAttempt

def pubkey (a : SendAttempt) : String := (a.key.pre.conns a.conn).pubkey

def sender (a : SendAttempt) : String := (a.agent.pre.conns a.conn).agentID

def sections (a : SendAttempt) : List HubSection := [a.key, a.clock, a.look, a.agent, a.route]

/-- Every check passes, that of the recipients included: from here on nothing refuses the send. -/
structure Accepted (P : Platform) (a : SendAttempt) : Prop where
  verified : verifySignature P a.frame a.raw a.pubkey = none
  fresh : tsFresh a.frame.ts a.clock.pre.nowMS = true
  id : a.frame.id ≠ ""
  unseen : a.look.pre.sendIDs.seen a.pubkey (sendKey a.frame) = false
  known : a.frame.to ≠ "" → ∃ e, a.route.pre.agents[a.frame.to]? = some e
  joined : a.frame.to = "" → ∃ t, a.route.pre.channelTargets P a.conn a.frame = .ok t

/-- The frame was read from one of the messages. -/
def Received (messages : List Message) (a : SendAttempt) : Prop :=
  frameOp a.frame a.raw = "send" ∧
    ∃ data, .text data ∈ messages ∧ parseFrame data = some (a.frame, a.raw)

end SendAttempt

/-- One of the sections saw the connection authenticated. -/
def Authenticated (c : ConnID) (past : List HubSection) : Prop :=
  ∃ e ∈ past, (e.pre.conns c).authed = true

/-- The sections end with `x`, and the connection was authenticated before. -/
def Ends (c : ConnID) (x past : List HubSection) : Prop :=
  ∃ t, past = t ++ x ∧ Authenticated c t

/-- An accepted send of `c` among the sections. -/
structure SendAttempt.Within (P : Platform) (c : ConnID) (messages : List Message)
    (past : List HubSection) (a : SendAttempt) : Prop where
  conn : a.conn = c
  received : a.Received messages
  accepted : a.Accepted P
  executed : ∃ t, t <+: past ∧ Ends c a.sections t

/-- `d` was looked up as the recipient. -/
def SendAttempt.Reaches (P : Platform) (past : List HubSection) (a : SendAttempt) (d : ConnID) :
    Prop :=
  (a.frame.to ≠ "" ∧ ∃ e ∈ past, e.pre.clients[a.frame.to]? = some d) ∨
    (a.frame.to = "" ∧ ∃ t m, a.route.pre.channelTargets P a.conn a.frame = .ok t ∧
      (m, d) ∈ t.online)

/-- The agent is the recipient, or an absent one. -/
def SendAttempt.Awaits (P : Platform) (a : SendAttempt) (id : String) : Prop :=
  (a.frame.to ≠ "" ∧ id = a.frame.to) ∨
    (a.frame.to = "" ∧ ∃ t, a.route.pre.channelTargets P a.conn a.frame = .ok t ∧ id ∈ t.offline)

/-- `c` took the message out of the mailbox of its agent. -/
def Drained (c : ConnID) (past : List HubSection) (g : Frame) : Prop :=
  ∃ own drain t, t <+: past ∧ Ends c [own, drain] t ∧
    g ∈ drain.pre.mailbox[(own.pre.conns c).agentID]?.getD []

/-- What the read loop may do after these sections. Messages are copies of accepted sends or come
out of the mailbox. -/
def loopScope (P : Platform) (c : ConnID) (messages : List Message) (past : List HubSection) :
    Scope where
  writes := OwnWrite P
  sends d r := ∀ g, r = .frame g → g.op = "msg" →
    (∃ a : SendAttempt, a.Within P c messages past ∧ a.Reaches P past d ∧
      g = routed a.sender a.frame) ∨ (d = c ∧ Drained c past g)
  stores id g := ∃ a : SendAttempt, a.Within P c messages past ∧ a.Awaits P id ∧
    g = routed a.sender a.frame
  does := Task P c

theorem loopScope_serves : (loopScope P c messages past).Serves P c where
  write _ hf := hf
  answer := by
    rintro r hr g rfl hop
    exact absurd hr (by simp [Reply.isMsg, hop])
  announce := by
    rintro p id e g hg hop
    obtain rfl := Reply.frame.inj hg
    have hpresence : "presence" = "msg" := hop
    exact absurd hpresence (by decide)
  task _ he := he

theorem SendAttempt.Within.mono {a : SendAttempt} {past' : List HubSection}
    (ha : a.Within P c messages past) (hp : past <+: past') : a.Within P c messages past' := by
  obtain ⟨t, ht, hends⟩ := ha.executed
  exact ⟨ha.conn, ha.received, ha.accepted, t, ht.trans hp, hends⟩

theorem loopScope_mono {past' : List HubSection} (hp : past <+: past') {e : HubSection}
    (he : Act c (loopScope P c messages past) e) : Act c (loopScope P c messages past') e := by
  have hs : ∀ d r, (loopScope P c messages past).sends d r →
      (loopScope P c messages past').sends d r := by
    intro d r hr g hg hop
    rcases hr g hg hop with ⟨a, ha, hd, heq⟩ | ⟨rfl, own, drain, t, ht, hends, hmem⟩
    · refine .inl ⟨a, ha.mono hp, ?_, heq⟩
      rcases hd with ⟨hto, x, hx, hxd⟩ | hd
      · exact .inl ⟨hto, x, hp.subset hx, hxd⟩
      · exact .inr hd
    · exact .inr ⟨rfl, own, drain, t, ht.trans hp, hends, hmem⟩
  have hm : ∀ id g, (loopScope P c messages past).stores id g →
      (loopScope P c messages past').stores id g := by
    rintro id g ⟨a, ha, hid, heq⟩
    exact ⟨a, ha.mono hp, hid, heq⟩
  have hw : (loopScope P c messages past).writes = (loopScope P c messages past').writes := rfl
  exact he.mono (fun _ hf => hw ▸ hf) hs hm fun _ ht => ht

/-- Each section is one that the read loop may execute after those before it. -/
def Disciplined (P : Platform) (c : ConnID) (messages : List Message) (past : List HubSection) :
    Prop :=
  ∀ t1 e t2, past = t1 ++ e :: t2 → Act c (loopScope P c messages t1) e

theorem Disciplined.concat {e : HubSection} (h : Disciplined P c messages past)
    (he : Act c (loopScope P c messages past) e) : Disciplined P c messages (past ++ [e]) := by
  intro t1 x t2 heq
  rcases List.eq_nil_or_concat t2 with rfl | ⟨t, y, rfl⟩
  · obtain ⟨rfl, hx⟩ := List.append_inj' heq rfl
    obtain ⟨rfl, -⟩ := List.cons.inj hx
    exact he
  · rw [List.concat_eq_append, ← List.cons_append, ← List.append_assoc] at heq
    obtain ⟨rfl, -⟩ := List.append_inj' heq rfl
    exact h t1 x t rfl

theorem Disciplined.initial {t : List HubSection} (h : Disciplined P c messages past)
    (ht : t <+: past) : Disciplined P c messages t := by
  obtain ⟨u, rfl⟩ := ht
  rintro t1 e t2 rfl
  exact h t1 e (t2 ++ u) (by simp)

section Programs

variable {α β : Type}

/-- While `Q` holds of the sections, the program stays within what the read loop may do. -/
theorem disciplined_of_emits {S : Scope} {p : HubProc α} {Q : List HubSection → Prop}
    (hp : Emits (Act c S) p) (hQ : ∀ past e, Q past → Q (past ++ [e]))
    (hS : ∀ past e, Q past → Act c S e → Act c (loopScope P c messages past) e) :
    HubTriple (fun _ _ => True) (fun past _ => Q past ∧ Disciplined P c messages past) p
      fun _ past _ => Q past ∧ Disciplined P c messages past := by
  refine (hp (fun _ _ => True) (fun past _ => Q past ∧ Disciplined P c messages past)
    (fun _ _ _ _ hs => hs) ?_).mono_guarantee fun _ _ _ => trivial
  rintro past e he ⟨hq, hd⟩
  exact ⟨hQ past e hq, hd.concat (hS past e hq he)⟩

/-- A program without messages of its own. -/
theorem disciplined_quiet {p : HubProc α} (hp : Emits (Act c (loopScope P c messages [])) p) :
    HubTriple (fun _ _ => True) (fun past _ => Disciplined P c messages past) p
      fun _ past _ => Disciplined P c messages past :=
  (disciplined_of_emits (Q := fun _ => True) hp (fun _ _ _ => trivial) fun _ _ _ he =>
    loopScope_mono (List.nil_prefix) he).mono (fun _ _ h => ⟨trivial, h⟩) fun _ _ _ h => h.2

/-- The sections so far are disciplined and end with `x`. -/
def Tail (P : Platform) (c : ConnID) (messages : List Message) (x past : List HubSection) : Prop :=
  Disciplined P c messages past ∧ Ends c x past

/-- A section that changes nothing that messages are about. -/
theorem Tail.bind {x : List HubSection} {label : Label} {f : Hub → α × Hub}
    {k : α → HubProc β} {post : β → Assertion Hub Label}
    (hl : ∀ s pick, Act c (loopScope P c messages []) ⟨label, s, (f s).2, pick⟩)
    (hk : ∀ e : HubSection, HubTriple (fun _ _ => True)
      (fun past _ => Tail P c messages (x ++ [e]) past) (k (f e.pre).1) post) :
    HubTriple (fun _ _ => True) (fun past _ => Tail P c messages x past)
      (Proc.atomically label f >>= k) post := by
  refine Triple.bind (M := fun a past _ => ∃ e : HubSection, (f e.pre).1 = a ∧
    Tail P c messages (x ++ [e]) past) (Triple.atomically (fun _ _ _ _ h => h) ?_) fun a => ?_
  · rintro past s pick ⟨hd, t, rfl, ha⟩
    refine ⟨trivial, ⟨label, s, (f s).2, pick⟩, rfl, ?_, t, by simp, ha⟩
    exact hd.concat (loopScope_mono List.nil_prefix (hl s pick))
  · refine Triple.choose fun e => Triple.assume fun hf => ?_
    rw [← hf]
    exact hk e

/-! ### The programs -/

/-- A refusal, or whatever else comes without messages, ends the matter. -/
theorem Tail.quiet {x : List HubSection} {p : HubProc α}
    (hp : ∀ S : Scope, S.Serves P c → Emits (Act c S) p) :
    HubTriple (fun _ _ => True) (fun past _ => Tail P c messages x past) p
      fun _ past _ => Disciplined P c messages past :=
  (disciplined_quiet (hp _ loopScope_serves)).mono (fun _ _ h => h.1) fun _ _ _ h => h

theorem Tail.within {a : SendAttempt} {y : List HubSection} (hc : a.conn = c)
    (hr : a.Received messages) (ha : a.Accepted P)
    (h : Tail P c messages (a.sections ++ y) past) : a.Within P c messages past := by
  obtain ⟨-, t, rfl, hauth⟩ := h
  refine ⟨hc, hr, ha, t ++ a.sections, ?_, t, rfl, hauth⟩
  rw [← List.append_assoc]
  exact List.prefix_append _ _

/-- What is left to do once the recipients of an accepted send are known. -/
theorem Tail.deliver {a : SendAttempt} {e : HubSection} {x : List HubSection} {S : Scope}
    {p : HubProc α} (hp : Emits (Act c S) p) (hw : ∀ f, ¬ S.writes f) (hd : ∀ e, ¬ S.does e)
    (hs : ∀ d r, S.sends d r → r = .frame (routed a.sender a.frame) ∧
      ∀ past : List HubSection, e ∈ past → a.Reaches P past d)
    (hm : ∀ id g, S.stores id g → g = routed a.sender a.frame ∧ a.Awaits P id)
    (hx : ∀ past, Tail P c messages x past → a.Within P c messages past ∧ e ∈ past) :
    HubTriple (fun _ _ => True) (fun past _ => Tail P c messages x past) p
      fun _ past _ => Disciplined P c messages past := by
  refine (disciplined_of_emits (Q := fun past => a.Within P c messages past ∧ e ∈ past) hp
    ?_ ?_).mono (fun past _ h => ⟨hx past h, h.1⟩) fun _ _ _ h => h.2
  · rintro past e' ⟨ha, he⟩
    exact ⟨ha.mono (List.prefix_append _ _), List.mem_append_left _ he⟩
  · rintro past e' ⟨ha, he⟩ hact
    refine hact.mono (fun f hf => absurd hf (hw f)) ?_ ?_ fun e hdoes => absurd hdoes (hd e)
    · rintro d r hr g hg hop
      obtain ⟨heq, hreach⟩ := hs d r hr
      rw [heq] at hg
      exact .inl ⟨a, ha, hreach past he, (Reply.frame.inj hg).symm⟩
    · intro id g hst
      obtain ⟨heq, hid⟩ := hm id g hst
      exact ⟨a, ha, hid, heq⟩

/-- The scope of an error answer. -/
theorem Tail.refuse {x : List HubSection} (code msg : String) :
    HubTriple (fun _ _ => True) (fun past _ => Tail P c messages x past) (sendErr c code msg)
      fun _ past _ => Disciplined P c messages past :=
  Tail.quiet fun _ h => Act.sendErr (h.refuses code) msg

variable {f : Frame} {raw : Raw} {key clock look : HubSection}

theorem deliverDM_disciplined (hto : f.to ≠ "")
    (hr : ∀ agent route, (SendAttempt.mk c f raw key clock look agent route).Received messages)
    (ha : ∀ agent route, (f.to ≠ "" → ∃ e, route.pre.agents[f.to]? = some e) →
      (f.to = "" → ∃ t, route.pre.channelTargets P c f = .ok t) →
      (SendAttempt.mk c f raw key clock look agent route).Accepted P) :
    HubTriple (fun _ _ => True) (fun past _ => Tail P c messages [key, clock, look] past)
      (deliverDM c f) fun _ past _ => Disciplined P c messages past := by
  unfold deliverDM
  refine Tail.bind (fun _ _ => .observed rfl) fun agent => ?_
  refine Tail.bind (fun _ _ => .observed rfl) fun route => ?_
  dsimp only
  split
  · exact Triple.bind (Tail.quiet fun _ _ => Act.logf _ _) fun _ =>
      (Triple.bind (disciplined_quiet (Act.sendErr (loopScope_serves.refuses _) _)) fun _ =>
        Triple.pure fun _ _ h => h)
  next e he =>
    let a : SendAttempt := ⟨c, f, raw, key, clock, look, agent, route⟩
    have hacc : a.Accepted P := ha agent route (fun _ => ⟨e, he⟩) fun h => absurd h hto
    have hmsg : routed a.sender a.frame = dmMsg (agent.pre.conns c).agentID f := if_pos hto
    refine Tail.bind (fun _ _ => .observed rfl) fun lookup => ?_
    let S : Scope :=
      { sends := fun d r => lookup.pre.clients[f.to]? = some d ∧
          r = .frame (dmMsg (agent.pre.conns c).agentID f)
        stores := fun id g => g = dmMsg (agent.pre.conns c).agentID f ∧ id = f.to }
    refine Tail.deliver (a := a) (e := lookup) (S := S) ?_ (fun _ hf => hf) (fun _ he => he)
      ?_ ?_ ?_
    · split
      · exact Emits.bind (Act.enqueue ⟨rfl, rfl⟩) fun _ =>
          Emits.bind (Act.logf _ _) fun _ => Emits.pure _
      next target htarget =>
        refine Emits.bind (Act.sendFrame ⟨htarget, rfl⟩) fun sent => ?_
        split
        · exact Emits.bind (Act.logf _ _) fun _ => Emits.pure _
        · exact Emits.bind (Act.enqueue ⟨rfl, rfl⟩) fun _ =>
            Emits.bind (Act.logf _ _) fun _ => Emits.pure _
    · rintro d r ⟨hd, rfl⟩
      exact ⟨by rw [hmsg], fun past hpast => .inl ⟨hto, lookup, hpast, hd⟩⟩
    · rintro id g ⟨rfl, rfl⟩
      exact ⟨hmsg.symm, .inl ⟨hto, rfl⟩⟩
    · intro past htail
      refine ⟨Tail.within (y := [lookup]) rfl (hr agent route) hacc htail, ?_⟩
      obtain ⟨-, t, rfl, -⟩ := htail
      simp

theorem deliverChannel_disciplined (hto : f.to = "")
    (hr : ∀ agent route, (SendAttempt.mk c f raw key clock look agent route).Received messages)
    (ha : ∀ agent route, (f.to ≠ "" → ∃ e, route.pre.agents[f.to]? = some e) →
      (f.to = "" → ∃ t, route.pre.channelTargets P c f = .ok t) →
      (SendAttempt.mk c f raw key clock look agent route).Accepted P) :
    HubTriple (fun _ _ => True) (fun past _ => Tail P c messages [key, clock, look] past)
      (deliverChannel P c f) fun _ past _ => Disciplined P c messages past := by
  unfold deliverChannel
  refine Tail.bind (fun _ _ => .observed rfl) fun agent => ?_
  refine Tail.bind (fun _ _ => .observed rfl) fun route => ?_
  dsimp only
  split
  · exact Triple.bind (Tail.quiet fun _ _ => Act.logf _ _) fun _ =>
      (Triple.bind (disciplined_quiet (Act.sendErr (loopScope_serves.refuses _) _)) fun _ =>
        Triple.pure fun _ _ h => h)
  next t ht =>
    let a : SendAttempt := ⟨c, f, raw, key, clock, look, agent, route⟩
    have hacc : a.Accepted P := ha agent route (fun h => absurd hto h) fun _ => ⟨t, ht⟩
    have hmsg : routed a.sender a.frame = channelMsg (agent.pre.conns c).agentID f :=
      if_neg (not_not.mpr hto)
    let S : Scope :=
      { sends := fun d r => (∃ m, (m, d) ∈ t.online) ∧
          r = .frame (channelMsg (agent.pre.conns c).agentID f)
        stores := fun id g => g = channelMsg (agent.pre.conns c).agentID f ∧ id ∈ t.offline }
    refine Tail.deliver (a := a) (e := route) (S := S) ?_ (fun _ hf => hf) (fun _ he => he)
      ?_ ?_ ?_
    · refine Emits.bind (Emits.forM fun m hm => ?_) fun _ =>
        Emits.bind (Emits.forM fun id hid => ?_) fun _ =>
          Emits.bind (Act.logf _ _) fun _ => Emits.pure _
      · exact Emits.bind (Act.sendFrame ⟨⟨m.1, hm⟩, rfl⟩) fun _ => Emits.pure _
      · exact Emits.bind (Act.enqueue ⟨rfl, hid⟩) fun _ => Emits.pure _
    · rintro d r ⟨⟨m, hm⟩, rfl⟩
      exact ⟨by rw [hmsg], fun past hpast => .inr ⟨hto, t, m, ht, hm⟩⟩
    · rintro id g ⟨rfl, hid⟩
      exact ⟨hmsg.symm, .inr ⟨hto, t, ht, hid⟩⟩
    · intro past htail
      refine ⟨Tail.within (y := []) rfl (hr agent route) hacc htail, ?_⟩
      obtain ⟨-, t, rfl, -⟩ := htail
      simp

theorem handleSend_disciplined (hop : frameOp f raw = "send")
    (hdata : ∃ data, .text data ∈ messages ∧ parseFrame data = some (f, raw)) :
    HubTriple (fun _ _ => True) (fun past _ => Tail P c messages [] past)
      (handleSend P c f raw) fun _ past _ => Disciplined P c messages past := by
  unfold handleSend
  refine Tail.bind (fun _ _ => .observed rfl) fun key => ?_
  dsimp only
  split
  · exact Tail.refuse _ _
  next hv =>
    refine Tail.bind (fun _ _ => .observed rfl) fun clock => ?_
    dsimp only
    split
    · exact Tail.refuse _ _
    next hfresh =>
      split
      · exact Tail.refuse _ _
      next hid =>
        refine Tail.bind (fun _ _ => .other .looked) fun look => ?_
        dsimp only
        split
        · exact Tail.refuse _ _
        next hunseen =>
          have hr : ∀ agent route,
              (SendAttempt.mk c f raw key clock look agent route).Received messages :=
            fun _ _ => ⟨hop, hdata⟩
          have ha : ∀ agent route, (f.to ≠ "" → ∃ e, route.pre.agents[f.to]? = some e) →
              (f.to = "" → ∃ t, route.pre.channelTargets P c f = .ok t) →
              (SendAttempt.mk c f raw key clock look agent route).Accepted P := by
            intro agent route hknown hjoined
            exact ⟨hv, not_not.mp hfresh, hid, Bool.eq_false_iff.mpr hunseen, hknown, hjoined⟩
          refine Triple.bind (M := fun _ past _ => Disciplined P c messages past) ?_
            fun accepted => ?_
          · unfold deliver
            split
            next hto => exact deliverDM_disciplined hto hr ha
            next hto => exact deliverChannel_disciplined (not_not.mp hto) hr ha
          · split
            · exact disciplined_quiet (Emits.modify fun _ _ => .other (.latched _ _))
            · exact Triple.pure fun _ _ h => h

theorem handleFlush_disciplined :
    HubTriple (fun _ _ => True) (fun past _ => Tail P c messages [] past)
      (handleFlush c) fun _ past _ => Disciplined P c messages past := by
  unfold handleFlush
  refine Tail.bind (fun _ _ => .observed rfl) fun own => ?_
  refine Tail.bind (fun _ _ => .other (.drained _)) fun drain => ?_
  dsimp only
  let msgs := drain.pre.mailbox[(own.pre.conns c).agentID]?.getD []
  let S : Scope := { sends := fun d r => d = c ∧ ∃ m ∈ msgs, r = .frame m }
  have hmsgs : Emits (Act c S) (msgs.forM fun m => do
      let _ ← sendFrame c (.frame m)) := by
    refine Emits.forM fun m hm => ?_
    exact Emits.bind (Act.sendFrame ⟨rfl, m, hm, rfl⟩) fun _ => Emits.pure _
  have hdrained : HubTriple (fun _ _ => True)
      (fun past _ => (∃ t, t <+: past ∧ Ends c [own, drain] t) ∧ Disciplined P c messages past)
      (msgs.forM fun m => do
        let _ ← sendFrame c (.frame m))
      fun _ past _ => (∃ t, t <+: past ∧ Ends c [own, drain] t) ∧
        Disciplined P c messages past := by
    refine disciplined_of_emits hmsgs ?_ ?_
    · rintro past e ⟨t, ht, hends⟩
      exact ⟨t, ht.trans (List.prefix_append _ _), hends⟩
    · rintro past e ⟨t, ht, hends⟩ (he : Act c S e)
      refine he.mono (fun _ hf => False.elim hf) ?_ (fun _ _ hst => False.elim hst)
        fun _ hdoes => False.elim hdoes
      rintro d r ⟨rfl, m, hm, rfl⟩ g hg -
      obtain rfl := Reply.frame.inj hg
      exact .inr ⟨rfl, own, drain, t, ht, hends, hm⟩
  refine Triple.bind (M := fun _ past _ => Disciplined P c messages past) ?_ fun _ => ?_
  · exact hdrained.mono (fun past _ h => ⟨⟨past, List.prefix_refl past, h.2⟩, h.1⟩)
      fun _ _ _ h => h.2
  · have hS : (loopScope P c messages []).Serves P c := loopScope_serves
    apply disciplined_quiet
    split
    · exact Emits.bind (Act.sendErr (hS.refuses _) _) fun _ =>
        Emits.bind (Act.answer hS rfl) fun _ => Act.logf _ _
    · exact Emits.bind (Act.answer hS rfl) fun _ => Act.logf _ _

theorem dispatch_disciplined {data : Bytes} (hdata : .text data ∈ messages) :
    HubTriple (fun _ _ => True) (fun past _ => Disciplined P c messages past)
      (dispatch P c data) fun _ past _ => Disciplined P c messages past := by
  have hS : (loopScope P c messages []).Serves P c := loopScope_serves
  have hlog : ∀ op id code, HubTriple (fun _ _ => True)
      (fun past _ => Disciplined P c messages past) (logOp c op id code)
      fun _ past _ => Disciplined P c messages past :=
    fun _ _ _ => disciplined_quiet (Act.logf _ _)
  have hrefuse : ∀ code msg, HubTriple (fun _ _ => True)
      (fun past _ => Disciplined P c messages past) (sendErr c code msg)
      fun _ past _ => Disciplined P c messages past :=
    fun code msg => disciplined_quiet (Act.sendErr (hS.refuses code) msg)
  unfold dispatch
  refine Triple.bind (disciplined_quiet (Act.setOwn (hS.write _ (.code "")))) fun _ => ?_
  split
  · exact Triple.bind (hrefuse _ _) fun _ => hlog _ _ _
  next f raw hparse =>
    unfold dispatchFrame
    -- once the connection is seen authenticated, the handler starts with an empty tail
    refine Triple.bind (M := fun k past _ => Disciplined P c messages past ∧
      (k.authed = true → Authenticated c past)) (Triple.read (fun _ _ _ _ h => h) ?_) fun k => ?_
    · intro past s pick h
      refine ⟨trivial, h.concat (.observed rfl), fun hk => ?_⟩
      exact ⟨_, List.mem_append_right _ (List.mem_singleton_self _), hk⟩
    split
    · exact Triple.bind ((hrefuse _ _).mono (fun _ _ h => h.1) fun _ _ _ h => h) fun _ =>
        hlog _ _ _
    next hop =>
      have hauth : k.authed = true ∨ frameOp f raw = "hello" := by
        by_contra hno
        rw [not_or] at hno
        exact hop hno
      refine Triple.bind (M := fun _ past _ => (k.authed = true → Authenticated c past) ∧
        Disciplined P c messages past) ?_ fun _ => ?_
      · refine (disciplined_of_emits (Act.task hS fun _ _ => .touched _) ?_ ?_).mono
          (fun _ _ h => ⟨h.2, h.1⟩) fun _ _ _ h => h
        · rintro past e hseen hk
          obtain ⟨x, hx, hxa⟩ := hseen hk
          exact ⟨x, List.mem_append_left _ hx, hxa⟩
        · exact fun past e _ he => loopScope_mono List.nil_prefix he
      have htail : ∀ past : List HubSection, (k.authed = true → Authenticated c past) ∧
          Disciplined P c messages past → frameOp f raw ≠ "hello" → Tail P c messages [] past := by
        rintro past ⟨hseen, hd⟩ hne
        exact ⟨hd, past, (List.append_nil _).symm, hseen (hauth.resolve_right hne)⟩
      split
      next handle hh =>
        refine Triple.bind (M := fun _ past _ => Disciplined P c messages past) ?_ fun _ =>
          hlog _ _ _
        by_cases hsend : frameOp f raw = "send"
        · have hhandle : handler P c (frameOp f raw) f raw = some (handleSend P c f raw) := by
            simp [handler, hsend]
          obtain rfl := Option.some.inj (hh.symm.trans hhandle)
          exact (handleSend_disciplined hsend ⟨data, hdata, hparse⟩).mono
            (fun past _ h => htail past h (by rw [hsend]; decide)) fun _ _ _ h => h
        by_cases hflush : frameOp f raw = "flush"
        · have hhandle : handler P c (frameOp f raw) f raw = some (handleFlush c) := by
            simp [handler, hflush]
          obtain rfl := Option.some.inj (hh.symm.trans hhandle)
          exact handleFlush_disciplined.mono
            (fun past _ h => htail past h (by rw [hflush]; decide)) fun _ _ _ h => h
        exact (disciplined_quiet (Act.handler hS (fun h => absurd h hsend)
          (fun h => absurd h hflush) hh)).mono (fun _ _ h => h.2) fun _ _ _ h => h
      · exact Triple.bind ((hrefuse _ _).mono (fun _ _ h => h.2) fun _ _ _ h => h) fun _ =>
          hlog _ _ _

theorem readLoop_disciplined {rest : List Message} (hrest : ∀ m ∈ rest, m ∈ messages) :
    HubTriple (fun _ _ => True) (fun past _ => Disciplined P c messages past)
      (readLoop P c rest) fun _ past _ => Disciplined P c messages past := by
  have hS : (loopScope P c messages []).Serves P c := loopScope_serves
  induction rest with
  | nil => exact Triple.pure fun _ _ h => h
  | cons m rest ih =>
    have ih := ih fun m hm => hrest m (List.mem_cons_of_mem _ hm)
    unfold readLoop
    refine Triple.bind (disciplined_quiet (Act.read rfl)) fun closed => ?_
    split
    · exact Triple.pure fun _ _ h => h
    · cases m with
      | binary data =>
        exact Triple.bind (disciplined_quiet (Act.sendErr (hS.refuses _) _)) fun _ => ih
      | text data =>
        dsimp only
        split
        · exact disciplined_quiet (Act.reject (hS.refuses _) _)
        · exact Triple.bind (dispatch_disciplined (hrest _ List.mem_cons_self)) fun _ => ih

/-- Whatever messages arrive, the read loop is disciplined. -/
theorem serve_disciplined (remote : String) :
    HubTriple (fun _ _ => True) (fun past _ => past = []) (serve P c remote messages)
      fun _ past _ => Disciplined P c messages past := by
  have hS : (loopScope P c messages []).Serves P c := loopScope_serves
  unfold serve
  refine Triple.bind (M := fun _ past _ => Disciplined P c messages past)
    ((disciplined_quiet (Act.logf _ _)).mono ?_ fun _ _ _ h => h) fun _ =>
    Triple.bind (readLoop_disciplined fun _ hm => hm) fun _ =>
      Triple.bind (disciplined_quiet (Act.deregister hS)) fun _ =>
        disciplined_quiet (Act.logf _ _)
  rintro past _ rfl t1 e t2 heq
  exact absurd heq (by simp)

end Programs

/-! ### Where messages come from -/

namespace SendAttempt

/-- The sections of the send are in the history, each right after the other on its connection. -/
def Executed (H : HubHistory) (a : SendAttempt) : Prop :=
  ∃ H1 H2 t, H = H1 ++ (some a.conn, a.route) :: H2 ∧
    H1.own a.conn = t ++ [a.key, a.clock, a.look, a.agent]

/-- `g` is the copy of the send for the agent `r`: a direct message is `r`'s own, a channel message
goes from a member to a member. -/
structure CopyFor (P : Platform) (a : SendAttempt) (r : String) (g : Frame) : Prop where
  sender : g.from = helloAgentID P a.pubkey
  id : g.id = a.frame.id
  ts : g.ts = a.frame.ts
  ciphertext : g.ciphertext = a.frame.ciphertext
  recipient : (a.frame.to ≠ "" ∧ a.frame.to = r ∧ g.to = r ∧ g.channel = "") ∨
    (a.frame.to = "" ∧ g.to = "" ∧ g.channel = a.frame.channel ∧
      ∃ ch, a.route.pre.channels[g.channel]? = some ch ∧ Hub.isMember ch g.from = true ∧
        r ∈ ch.members)

end SendAttempt

/-- The message for the agent `r` goes back to an accepted send on an authenticated connection. -/
def Stems (P : Platform) (messages : ConnID → List Message) (H : HubHistory) (r : String)
    (g : Frame) : Prop :=
  ∃ a : SendAttempt, a.Executed H ∧ a.Received (messages a.conn) ∧ a.Accepted P ∧
    (a.key.pre.conns a.conn).authed = true ∧ a.CopyFor P r g

section Histories

variable {messages : ConnID → List Message} {H H' : HubHistory} {h : Hub} {r : String} {g : Frame}

theorem Stems.append (hs : Stems P messages H r g) (H' : HubHistory) :
    Stems P messages (H ++ H') r g := by
  obtain ⟨a, ⟨H1, H2, t, rfl, hown⟩, hrest⟩ := hs
  exact ⟨a, ⟨H1, H2 ++ H', t, by simp, hown⟩, hrest⟩

theorem Hub.channelTargets_member {f : Frame} {t : Targets}
    (hok : h.channelTargets P c f = .ok t) : ∃ ch, h.channels[f.channel]? = some ch ∧
      Hub.isMember ch (h.conns c).agentID = true ∧ t = h.targets ch := by
  unfold Hub.channelTargets at hok
  dsimp only at hok
  split at hok
  · simp at hok
  next ch hch =>
    split at hok
    · simp at hok
    next hmember =>
      split at hok
      · simp at hok
      · exact ⟨ch, hch, by simpa using hmember, (Except.ok.inj hok).symm⟩

theorem Hub.mem_online {ch : Channel} {m : String} (hm : (m, d) ∈ (h.targets ch).online) :
    m ∈ ch.members ∧ h.clients[m]? = some d := by
  obtain ⟨m', hm', hmap⟩ := List.mem_filterMap.mp hm
  obtain ⟨d', hd', heq⟩ := Option.map_eq_some_iff.mp hmap
  obtain ⟨rfl, rfl⟩ := Prod.mk.inj heq
  exact ⟨Std.ExtTreeMap.mem_keys.mp hm', hd'⟩

theorem Hub.mem_offline {ch : Channel} {m : String} (hm : m ∈ (h.targets ch).offline) :
    m ∈ ch.members :=
  Std.ExtTreeMap.mem_keys.mp (List.mem_filter.mp hm).1

/-- A connection that was found in the map speaks for its agent from then on. -/
theorem HubRun.found (hrun : HubRun P messages H h) {e : HubSection} (he : e ∈ H.own c)
    {id : String} (hd : e.pre.clients[id]? = some d) : ∃ pub, h.SpeaksFor d id pub := by
  obtain ⟨t1, t2, hsplit⟩ := List.append_of_mem he
  obtain ⟨H1, H2, rfl, -, -⟩ := History.split_of_own hsplit
  have hi : Coherent P e.pre := .reachable hrun.of_append.reachable
  exact ⟨_, (hrun.speaksFor (m := (some c, e)) (hi.speaksFor hd)).1⟩

/-- An accepted send among the sections of a connection is one of the whole run, by the agent of the
key it verified under. -/
theorem SendAttempt.Within.executed_in {a : SendAttempt} (hrun : HubRun P messages H h)
    (ha : a.Within P c (messages c) (H.own c)) : a.Executed H ∧
      (a.key.pre.conns a.conn).authed = true ∧ a.sender = helloAgentID P a.pubkey ∧
      (a.route.pre.conns a.conn).agentID = a.sender := by
  obtain ⟨rfl, -, -, t, ht, u, rfl, e, he, hauth⟩ := ha
  obtain ⟨v, hv⟩ := ht
  have hown : H.own a.conn = (u ++ [a.key, a.clock, a.look, a.agent]) ++ a.route :: v := by
    rw [← hv]
    simp [SendAttempt.sections]
  obtain ⟨H1, H2, rfl, hH1, -⟩ := History.split_of_own hown
  refine ⟨⟨H1, H2, u, rfl, hH1⟩, ?_⟩
  obtain ⟨u1, u2, rfl⟩ := List.append_of_mem he
  have hown' : History.own (H1 ++ (some a.conn, a.route) :: H2) a.conn =
      u1 ++ e :: (u2 ++ a.sections ++ v) := by
    rw [hown]
    simp [SendAttempt.sections]
  obtain ⟨K1, K2, hK, -, hK2⟩ := History.split_of_own hown'
  rw [hK] at hrun
  have hi : Coherent P e.pre := .reachable hrun.of_append.reachable
  obtain ⟨f, raw, -, hpub, hid⟩ := (hi.sound a.conn).signed hauth
  have hall := (hrun.speaksFor (m := (some a.conn, e)) ⟨hauth, rfl, rfl⟩).2
  have hspeaks : ∀ x ∈ a.sections, x.pre.SpeaksFor a.conn (e.pre.conns a.conn).agentID
      (e.pre.conns a.conn).pubkey := by
    intro x hx
    refine hall (some a.conn, x) (History.mem_own.mp ?_)
    rw [hK2]
    exact List.mem_append_left _ (List.mem_append_right _ hx)
  obtain ⟨hkey, -, hkeypub⟩ := hspeaks a.key (by simp [SendAttempt.sections])
  obtain ⟨-, hagent, -⟩ := hspeaks a.agent (by simp [SendAttempt.sections])
  obtain ⟨-, hroute, -⟩ := hspeaks a.route (by simp [SendAttempt.sections])
  refine ⟨hkey, ?_, hroute.trans hagent.symm⟩
  unfold SendAttempt.sender SendAttempt.pubkey
  rw [hagent, hkeypub]
  exact hid.trans (congrArg (helloAgentID P) hpub.symm)

/-- The copy of an accepted send is one for each of its recipients. -/
theorem SendAttempt.copyFor {a : SendAttempt} (hs : a.sender = helloAgentID P a.pubkey)
    (hroute : (a.route.pre.conns a.conn).agentID = a.sender)
    (hr : (a.frame.to ≠ "" ∧ r = a.frame.to) ∨
      (a.frame.to = "" ∧ ∃ t, a.route.pre.channelTargets P a.conn a.frame = .ok t ∧
        ((∃ d, (r, d) ∈ t.online) ∨ r ∈ t.offline))) :
    a.CopyFor P r (routed a.sender a.frame) := by
  rcases hr with ⟨hto, rfl⟩ | ⟨hto, t, ht, hmem⟩
  · have hcopy : routed a.sender a.frame = dmMsg a.sender a.frame := if_pos hto
    rw [hcopy]
    exact ⟨hs, rfl, rfl, rfl, .inl ⟨hto, rfl, rfl, rfl⟩⟩
  · have hcopy : routed a.sender a.frame = channelMsg a.sender a.frame :=
      if_neg (not_not.mpr hto)
    rw [hcopy]
    obtain ⟨ch, hch, hmember, rfl⟩ := Hub.channelTargets_member ht
    refine ⟨hs, rfl, rfl, rfl, .inr ⟨hto, rfl, rfl, ch, hch, ?_, ?_⟩⟩
    · rw [hroute] at hmember
      exact hmember
    · rcases hmem with ⟨d, hd⟩ | hoff
      · exact (Hub.mem_online hd).1
      · exact Hub.mem_offline hoff

theorem SendAttempt.Within.stems {a : SendAttempt} (hrun : HubRun P messages H h)
    (ha : a.Within P c (messages c) (H.own c))
    (hr : (a.frame.to ≠ "" ∧ r = a.frame.to) ∨
      (a.frame.to = "" ∧ ∃ t, a.route.pre.channelTargets P a.conn a.frame = .ok t ∧
        ((∃ d, (r, d) ∈ t.online) ∨ r ∈ t.offline))) :
    Stems P messages H r (routed a.sender a.frame) := by
  obtain ⟨hexec, hauth, hs, hroute⟩ := ha.executed_in hrun
  refine ⟨a, hexec, ?_, ha.accepted, hauth, SendAttempt.copyFor hs hroute hr⟩
  rw [ha.conn]
  exact ha.received

/-! ### What the sections do to queues and mailboxes -/

theorem Hub.updConn_send (s : Hub) {f : Conn → Conn} (hf : ∀ k, (f k).send = k.send)
    (c d : ConnID) : ((s.updConn c f).conns d).send = (s.conns d).send := by
  by_cases hd : d = c
  · subst hd
    rw [s.updConn_conns_self]
    exact hf _
  · rw [s.updConn_conns_of_ne f hd]

theorem Hub.evictOther_send (s : Hub) (c d : ConnID) :
    ((s.evictOther c).conns d).send = (s.conns d).send := by
  unfold Hub.evictOther
  dsimp only
  split
  next old _ =>
    split
    · have hdrop := (s.closedAs old .evicted).updConn_send
        (f := fun k => { k with closed := true }) (fun _ => rfl) old d
      refine hdrop.trans (s.updConn_send (fun k => ?_) old d)
      split <;> rfl
    · rfl
  · rfl

theorem Task.send {e : HubSection} (ht : Task P c e) (d : ConnID) :
    (e.post.conns d).send = (e.pre.conns d).send := by
  cases ht with
  | @registered s pick =>
    change ((s.registerLocked c).2.conns d).send = _
    unfold Hub.registerLocked
    dsimp only
    refine (Hub.updConn_send _ (f := fun k => { k with stage := .serving }) ?_ c d).trans ?_
    · exact fun _ => rfl
    · exact s.evictOther_send c d
  | @touched s pick id =>
    change ((s.touchLastSeenLocked id).conns d).send = _
    rw [s.touchLastSeenLocked_frame]
  | @joined s pick name chanPub =>
    change ((s.joinLocked P c name chanPub).2.conns d).send = _
    rw [Hub.joinLocked_frame]
  | @left s s' pick r hd =>
    change (s'.conns d).send = (s.conns d).send
    rw [Hub.deregisterLocked_conns hd]
    exact s.updConn_send (f := fun k => { k with stage := .gone }) (fun _ => rfl) c d
  | _ => rfl

theorem Task.mailbox {e : HubSection} (ht : Task P c e) {id : String} {q : List Frame}
    (hq : e.post.mailbox[id]? = some q) : e.pre.mailbox[id]? = some q := by
  cases ht with
  | @registered s pick => exact (s.registerLocked_spec c).mailbox ▸ hq
  | @touched s pick id =>
    change (s.touchLastSeenLocked id).mailbox[_]? = _ at hq
    rwa [s.touchLastSeenLocked_frame] at hq
  | @joined s pick name chanPub =>
    change (s.joinLocked P c name chanPub).2.mailbox[_]? = _ at hq
    rwa [Hub.joinLocked_frame] at hq
  | @left s s' pick r hd =>
    obtain ⟨h1, rfl, ⟨-, rfl⟩ | ⟨-, e, -, rfl⟩⟩ := Hub.deregisterLocked_spec hd
    · exact hq
    · exact hq
  | @drained s pick id' =>
    have hq' := (GoMap.getElem?_erase_ite s.mailbox id' id).symm.trans hq
    split at hq'
    · simp at hq'
    · exact hq'
  | _ => exact hq

/-- What is in a queue was there before, or the section may send it. -/
theorem Act.send {S : Scope} {e : HubSection} (he : Act c S e)
    (hw : ∀ f, S.writes f → ∀ k, (f k).send = k.send) (hd : ∀ e, S.does e → Task P c e)
    {d : ConnID} {r : Reply} (hr : r ∈ (e.post.conns d).send) :
    r ∈ (e.pre.conns d).send ∨ S.sends d r := by
  have hsame : ∀ (s : Hub) (f : Conn → Conn) (d' : ConnID), (∀ k, (f k).send = k.send) →
      r ∈ ((s.updConn d' f).conns d).send → r ∈ (s.conns d).send := fun s f d' hf hr =>
    s.updConn_send hf d' d ▸ hr
  cases he with
  | @wrote s pick f hf => exact .inl (hsame s f _ (hw f hf) hr)
  | @reserved s pick d' r' hs =>
    exact .inl (hsame s (fun k => { k with queued := k.queued + r'.length }) d' (fun _ => rfl) hr)
  | @released s pick d' r' hs =>
    exact .inl (hsame s (fun k => { k with queued := k.queued - r'.length }) d' (fun _ => rfl) hr)
  | @pushed s pick d' r' hs hroom =>
    by_cases hdd : d = d'
    · subst hdd
      change r ∈ ((s.updConn d fun k => { k with send := k.send ++ [r'] }).conns d).send at hr
      rw [s.updConn_conns_self] at hr
      rcases List.mem_append.mp hr with hr | hr
      · exact .inl hr
      · exact .inr (List.mem_singleton.mp hr ▸ hs)
    · change r ∈ ((s.updConn d' fun k => { k with send := k.send ++ [r'] }).conns d).send at hr
      rw [s.updConn_conns_of_ne _ hdd] at hr
      exact .inl hr
  | @closedAs s pick d' reason =>
    refine .inl (hsame s (fun k => if k.reason = .unknown then { k with reason := reason } else k)
      d' (fun k => ?_) hr)
    split <;> rfl
  | @dropped s pick d' =>
    exact .inl (hsame s (fun k => { k with closed := true }) d' (fun _ => rfl) hr)
  | @rejected s pick r' =>
    exact .inl (hsame s (fun k => { k with rejectCh := some r' }) c (fun _ => rfl) hr)
  | @stored s pick id f hf =>
    change r ∈ ((s.enqueueLocked id f).2.conns d).send at hr
    rw [Hub.enqueueLocked_frame] at hr
    exact .inl hr
  | other he => exact .inl ((hd _ he).send d ▸ hr)
  | _ => exact .inl hr

/-- What is in a mailbox was there before, or the section may put it there. -/
theorem Act.mailbox {S : Scope} {e : HubSection} (he : Act c S e)
    (hd : ∀ e, S.does e → Task P c e) {id : String} {q : List Frame}
    (hq : e.post.mailbox[id]? = some q) (hg : g ∈ q) :
    (∃ q, e.pre.mailbox[id]? = some q ∧ g ∈ q) ∨ S.stores id g := by
  cases he with
  | stored hf =>
    rcases Hub.mem_enqueueLocked hq hg with hold | ⟨rfl, rfl⟩
    · exact .inl hold
    · exact .inr hf
  | other he => exact .inl ⟨q, (hd _ he).mailbox hq, hg⟩
  | _ => exact .inl ⟨q, hq, hg⟩

theorem Ambient.send {h' : Hub} (ha : Ambient h h') {r : Reply} (hr : r ∈ (h'.conns d).send) :
    r ∈ (h.conns d).send := by
  cases ha with
  | quiet hq hsend => exact (hsend d).subset hr
  | opened c auth boundName hs =>
    unfold Hub.openConn at hr
    by_cases hdc : d = c
    · subst hdc
      rw [h.updConn_conns_self] at hr
      cases hr
    · rwa [h.updConn_conns_of_ne _ hdc] at hr
  | evicted id =>
    rcases h.adminEvictLocked_spec id with heq | ⟨-, -, -, hconns⟩
    · rwa [heq] at hr
    · rwa [hconns] at hr
  | aclSet name allowed => exact hr

theorem Hub.adminEvictLocked_mailbox {id r : String} {q : List Frame}
    (hq : (h.adminEvictLocked id).2.mailbox[r]? = some q) : h.mailbox[r]? = some q := by
  have herase : (h.mailbox.erase id)[r]? = some q → h.mailbox[r]? = some q := by
    intro hq
    rw [GoMap.getElem?_erase_ite] at hq
    split at hq
    · simp at hq
    · exact hq
  unfold Hub.adminEvictLocked at hq
  dsimp only at hq
  split at hq
  · exact hq
  split at hq
  · exact hq
  split at hq
  · split at hq
    · exact herase hq
    · exact herase hq
  · exact herase hq

theorem Ambient.mailbox {h' : Hub} (ha : Ambient h h') {q : List Frame}
    (hq : h'.mailbox[r]? = some q) : h.mailbox[r]? = some q := by
  cases ha with
  | quiet hq' hsend => exact hq'.mailbox ▸ hq
  | opened c auth boundName hs => exact hq
  | evicted id => exact Hub.adminEvictLocked_mailbox hq
  | aclSet name allowed => exact hq

/-! ### Every message has an origin -/

/-- Every message stems from an accepted send to the agent in whose mailbox or on whose connection
it is. -/
structure Backed (P : Platform) (messages : ConnID → List Message) (H : HubHistory) (h : Hub) :
    Prop where
  mail : ∀ (r : String) q g, h.mailbox[r]? = some q → g ∈ q → Stems P messages H r g
  queued : ∀ d g, .frame g ∈ (h.conns d).send → g.op = "msg" →
    (h.conns d).authed = true ∧ Stems P messages H (h.conns d).agentID g

/-- The last section of a run is one that its read loop may execute after those before it. -/
theorem HubRun.last_act {e : HubSection} (hrun : HubRun P messages (H ++ [(some c, e)]) h) :
    Act c (loopScope P c (messages c) (H.own c)) e := by
  have hown : History.own (H ++ [(some c, e)]) c = H.own c ++ [e] := by
    rw [History.own_append, History.own_cons_self, History.own_nil]
  have hf := hrun.follows c (by rw [hown]; simp)
  rw [hown] at hf
  obtain ⟨t', ht, hd⟩ := hf.of_triple serve_disciplined
  exact (hd.initial ht) (H.own c) e [] rfl

/-- A message that a section may queue stems from a send to the agent of that connection. -/
theorem HubRun.sends_backed (hrun : HubRun P messages H h)
    (hprev : ∀ H1 m H2, H = H1 ++ m :: H2 → Backed P messages H1 m.2.pre)
    (hs : (loopScope P c (messages c) (H.own c)).sends d (.frame g)) (hop : g.op = "msg") :
    ∃ id pub, h.SpeaksFor d id pub ∧ Stems P messages H id g := by
  rcases hs g rfl hop with ⟨a, ha, hd, rfl⟩ | ⟨rfl, own, drain, t, ht, hends, hmem⟩
  · rcases hd with ⟨hto, x, hx, hxd⟩ | ⟨hto, t, m, ht, hm⟩
    · obtain ⟨pub, hpub⟩ := hrun.found hx hxd
      exact ⟨_, pub, hpub, ha.stems hrun (.inl ⟨hto, rfl⟩)⟩
    · have hroute : a.route ∈ H.own c := by
        obtain ⟨u, hu, v, rfl, -⟩ := ha.executed
        exact hu.subset (by simp [SendAttempt.sections])
      obtain ⟨ch, -, -, htargets⟩ := Hub.channelTargets_member ht
      have hmap := (Hub.mem_online (htargets ▸ hm)).2
      obtain ⟨pub, hpub⟩ := hrun.found hroute hmap
      exact ⟨m, pub, hpub, ha.stems hrun (.inr ⟨hto, t, ht, .inl ⟨d, hm⟩⟩)⟩
  · -- the flushing connection speaks for the agent whose mailbox it drained
    obtain ⟨u, rfl, e, he, hauth⟩ := hends
    obtain ⟨v, hv⟩ := ht
    obtain ⟨u1, u2, rfl⟩ := List.append_of_mem he
    have hsplit : H.own d = u1 ++ e :: (u2 ++ [own, drain] ++ v) := by
      rw [← hv]
      simp
    obtain ⟨K1, K2, rfl, -, hK2⟩ := History.split_of_own hsplit
    obtain ⟨hend, hall⟩ := hrun.speaksFor (m := (some d, e)) ⟨hauth, rfl, rfl⟩
    have hown : (some d, own) ∈ K2 := by
      apply History.mem_own.mp
      rw [hK2]
      simp
    obtain ⟨-, hownid, -⟩ := hall _ hown
    refine ⟨_, _, hend, ?_⟩
    have hdrain : drain ∈ History.own (K1 ++ (some d, e) :: K2) d := by
      rw [hsplit]
      simp
    obtain ⟨H1, H2, hH⟩ := List.append_of_mem (History.mem_own.mp hdrain)
    have hback := (hprev H1 _ H2 hH).mail
    dsimp only at hback hownid
    rw [hownid] at hmem
    cases hq : drain.pre.mailbox[(e.pre.conns d).agentID]? with
    | none => simp [hq] at hmem
    | some q =>
      rw [hq, Option.getD_some] at hmem
      rw [hH]
      exact (hback _ q g hq hmem).append _

theorem HubRun.step_backed {m : Option ConnID × HubSection}
    (hrun : HubRun P messages (H ++ [m]) h)
    (hprev : ∀ H1 m' H2, H ++ [m] = H1 ++ m' :: H2 → Backed P messages H1 m'.2.pre) :
    Backed P messages (H ++ [m]) m.2.post := by
  have hpre : Backed P messages H m.2.pre := hprev H m [] rfl
  have hbefore := hrun.of_concat.1
  have hi : Coherent P m.2.pre := .reachable hbefore.reachable
  obtain ⟨who, hstep⟩ := hrun.step (List.mem_append_right _ (List.mem_singleton_self m))
  -- an authenticated connection keeps its messages and stays who it is
  have hold : ∀ d g, .frame g ∈ (m.2.pre.conns d).send → g.op = "msg" →
      (m.2.post.conns d).authed = true ∧
        Stems P messages (H ++ [m]) (m.2.post.conns d).agentID g := by
    intro d g hg hop
    obtain ⟨hauth, hstems⟩ := hpre.queued d g hg hop
    obtain ⟨hauth', hid, -⟩ := hstep.speaksFor hi ⟨hauth, rfl, rfl⟩
    rw [hid]
    exact ⟨hauth', hstems.append _⟩
  obtain ⟨_ | c, e⟩ := m
  · have hamb := hrun.ambient e (List.mem_append_right _ (List.mem_singleton_self _))
    exact ⟨fun r q g hq hg => (hpre.mail r q g (hamb.mailbox hq) hg).append _,
      fun d g hg hop => hold d g (hamb.send hg) hop⟩
  · have hact := hrun.last_act
    have hprev' : ∀ H1 m' H2, H = H1 ++ m' :: H2 → Backed P messages H1 m'.2.pre := by
      rintro H1 m' H2 rfl
      exact hprev H1 m' (H2 ++ [(some c, e)]) (by simp)
    constructor
    · intro r q g hq hg
      rcases hact.mailbox (fun _ ht => ht) hq hg with ⟨q', hq', hg'⟩ | ⟨a, ha, hawaits, rfl⟩
      · exact (hpre.mail r q' g hq' hg').append _
      · refine (ha.stems hbefore ?_).append _
        rcases hawaits with hto | ⟨hto, t, ht, hoff⟩
        · exact .inl hto
        · exact .inr ⟨hto, t, ht, .inr hoff⟩
    · intro d g hg hop
      rcases hact.send (fun f hf => hf.send) (fun _ ht => ht) hg with hg' | hs
      · exact hold d g hg' hop
      · obtain ⟨id, pub, hd, hstems⟩ := hbefore.sends_backed hprev' hs hop
        obtain ⟨hauth, hid, -⟩ := hstep.speaksFor hi hd
        rw [hid]
        exact ⟨hauth, hstems.append _⟩

theorem HubRun.backed (hrun : HubRun P messages H h) : Backed P messages H h := by
  induction hn : H.length using Nat.strongRecOn generalizing H h with
  | ind n ih =>
    rcases List.eq_nil_or_concat H with rfl | ⟨H', m, rfl⟩
    · obtain ⟨h0, hf, -, hl⟩ := hrun.start
      obtain rfl := hl.of_nil
      constructor
      · intro r q g hq
        simp [hf.mailbox] at hq
      · intro d g hg
        rw [hf.conns d] at hg
        cases hg
    · rw [List.concat_eq_append] at hrun hn ⊢
      rw [hrun.of_concat.2]
      refine hrun.step_backed fun H1 m' H2 hH => ?_
      rw [hH] at hrun hn
      refine ih H1.length ?_ hrun.of_append rfl
      rw [← hn, List.length_append, List.length_cons]
      omega

/-- In every run of the hub each message in an agent's mailbox, or in the queue of one of its
connections, is a copy of an earlier accepted send, verified under the key of the connection it came
in on; it names that key's agent as its sender, and the agent is its recipient or, with the sender,
a member of its channel when it was routed. -/
theorem messages_authentic (hrun : HubRun P messages H h) :
    (∀ (r : String) q g, h.mailbox[r]? = some q → g ∈ q → Stems P messages H r g) ∧
    ∀ d g, .frame g ∈ (h.conns d).send → g.op = "msg" →
      Stems P messages H (h.conns d).agentID g :=
  ⟨hrun.backed.mail, fun d g hg hop => (hrun.backed.queued d g hg hop).2⟩

end Histories

/-! ### Runs -/

/-- A message whose text encodes the frame. -/
def wire (f : Frame) : Message := .text (Bytes.utf8 (GoJson.marshal (Reply.frame f).json))

theorem HubRun.fresh (messages : ConnID → List Message) : HubRun P messages [] {} where
  start := ⟨{}, .empty, fun name ch hch => by simp at hch, .nil _⟩
  follows c hc := absurd rfl hc
  ambient e he := by cases he

/-- Somebody other than the connections acts. -/
theorem HubRun.acted {messages : ConnID → List Message} {H : HubHistory} {e : HubSection}
    (hrun : HubRun P messages H e.pre) (he : Ambient e.pre e.post) :
    HubRun P messages (H ++ [(none, e)]) e.post := by
  obtain ⟨h0, hf, hu, hl⟩ := hrun.start
  refine ⟨⟨h0, hf, hu, hl.concat none⟩, fun c hc => ?_, fun e' he' => ?_⟩
  · rw [History.own_append, History.own_cons_of_ne (by simp), History.own_nil,
      List.append_nil] at hc ⊢
    exact hrun.follows c hc
  · rcases List.mem_append.mp he' with he' | he'
    · exact hrun.ambient e' he'
    · obtain ⟨-, rfl⟩ := Prod.mk.inj (List.mem_singleton.mp he')
      exact he

/-- A connection that has just been opened is served to its end alone. -/
theorem HubRun.served_opened {messages : ConnID → List Message} {H : HubHistory} {h : Hub}
    {auth : AuthKind} {boundName remote : String} {w : World Hub Label}
    (hopen : HubRun P messages H (h.openConn c auth boundName)) (hr : Reachable P h)
    (hown : H.own c = []) (hs : (h.conns c).stage = .absent)
    (hserve : alone (serve P c remote (messages c)) (h.openConn c auth boundName) = some ((), w)) :
    HubRun P messages (H ++ History.of c w.trace) w.state := by
  obtain ⟨h0, hf, hu, hl⟩ := hopen.start
  have hemits : Emits (Act c (everything P c)) (serve P c remote (messages c)) :=
    Act.serve (serves_everything P c) (fun _ _ => trivial) (fun _ _ => trivial) remote _
  refine ⟨⟨h0, hf, hu, hl.append (linked_alone hemits hserve c).1⟩, fun d hd => ?_, fun e he => ?_⟩
  · by_cases hdc : d = c
    · subst hdc
      refine ⟨h, auth, boundName, remote, [], w, hr, hs, fun _ hb => absurd hb List.not_mem_nil,
        hserve, ?_⟩
      rw [History.own_append, hown, History.own_of_self]
      exact List.prefix_refl _
    · rw [History.own_append, History.own_of_of_ne (Ne.symm hdc), List.append_nil] at hd ⊢
      exact hopen.follows d hd
  · rcases List.mem_append.mp he with he | he
    · exact hopen.ambient e he
    · obtain ⟨x, -, hx⟩ := List.mem_map.mp he
      exact absurd (congrArg Prod.fst hx) (by simp)

/-- A new connection is upgraded, and served to its end alone. -/
theorem HubRun.served {messages : ConnID → List Message} {H : HubHistory} {h : Hub}
    {auth : AuthKind} {boundName remote : String} {w : World Hub Label}
    (hrun : HubRun P messages H h)
    (hown : H.own c = []) (hs : (h.conns c).stage = .absent)
    (hserve : alone (serve P c remote (messages c)) (h.openConn c auth boundName) = some ((), w)) :
    HubRun P messages (H ++ [(none, ⟨.config, h, h.openConn c auth boundName, true⟩)] ++
      History.of c w.trace) w.state := by
  have hopen := hrun.acted (e := ⟨.config, h, h.openConn c auth boundName, true⟩)
    (.opened c auth boundName hs)
  refine hopen.served_opened hrun.reachable ?_ hs hserve
  rw [History.own_append, hown, History.own_cons_of_ne (by simp)]
  rfl

/-- A first connection, upgraded with the master secret, that is served to its end alone. -/
theorem HubRun.single {remote : String} {ms : List Message} {w : World Hub Label}
    (hrun : alone (serve P 0 remote ms) (({} : Hub).openConn 0 .master "") = some ((), w)) :
    HubRun P (fun _ => ms)
      ((none, ⟨.config, {}, ({} : Hub).openConn 0 .master "", true⟩) :: History.of 0 w.trace)
      w.state := (HubRun.fresh _).served rfl rfl hrun

/-- A message of an agent to itself. -/
def selfDM : Frame where
  op := "send"
  «to» := helloAgentID lenientPlatform (sampleHello 0).pubkey
  id := "m1"
  ciphertext := "AAAA"
  sig := "AAAA"

theorem messages_authentic_sample : ∃ H h g,
    HubRun lenientPlatform (fun _ => [wire (sampleHello 0), wire selfDM]) H h ∧
      .frame g ∈ (h.conns 0).send ∧ g.op = "msg" ∧
      Stems lenientPlatform (fun _ => [wire (sampleHello 0), wire selfDM]) H
        (h.conns 0).agentID g := by
  have hruns : (alone (serve lenientPlatform 0 "" [wire (sampleHello 0), wire selfDM])
      (({} : Hub).openConn 0 .master "")).map (fun r =>
        decide (.frame (dmMsg selfDM.to selfDM) ∈ (r.2.state.conns 0).send)) = some true := by
    decide +kernel
  obtain ⟨⟨_, w⟩, hw, hmem⟩ := Option.map_eq_some_iff.mp hruns
  have hmem := of_decide_eq_true hmem
  exact ⟨_, _, _, HubRun.single hw, hmem, rfl,
    (messages_authentic (HubRun.single hw)).2 0 _ hmem rfl⟩

end Dap
