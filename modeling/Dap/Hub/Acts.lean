import Dap.Hub.Dispatch

/-! The sections that the goroutine of a connection executes, each by what it does. -/
namespace Dap
open Proc

/-- The sections that only read, but for the look at the accepted ids. -/
def Label.observes : Label → Bool
  | .receive _ | .own _ | .clock | .config | .entry | .mu | .targets => true
  | .load _ _ | .checkClosed _ | .awaitClosed _ => true
  | _ => false

/-- What a program may do besides reading, logging and shedding connections: write its own
connection, queue a frame for a connection, put a frame in a mailbox, and the rest. -/
structure Scope where
  writes : (Conn → Conn) → Prop := fun _ => False
  sends : ConnID → Reply → Prop := fun _ _ => False
  stores : String → Frame → Prop := fun _ _ => False
  does : HubSection → Prop := fun _ => False

/-- One section of a program of `c` that stays within a scope. -/
inductive Act (c : ConnID) (S : Scope) : HubSection → Prop where
  | observed {label s pick} (hl : label.observes = true) : Act c S ⟨label, s, s, pick⟩
  | logged {s pick} (event : String) (kvs : List (String × String)) :
      Act c S ⟨.log, s, s.logged event kvs, pick⟩
  | wrote {s pick f} (hf : S.writes f) : Act c S ⟨.own c, s, s.updConn c f, pick⟩
  | reserved {s pick d r} (hr : S.sends d r) :
      Act c S ⟨.reserve d r, s,
        s.updConn d fun k => { k with queued := k.queued + r.length }, pick⟩
  | released {s pick d r} (hr : S.sends d r) :
      Act c S ⟨.release d r, s,
        s.updConn d fun k => { k with queued := k.queued - r.length }, pick⟩
  | pushed {s pick d r} (hr : S.sends d r) (hroom : (s.conns d).send.length < sendBuffer) :
      Act c S ⟨.select d r, s, s.updConn d fun k => { k with send := k.send ++ [r] }, pick⟩
  | missed {s pick d r} (hr : S.sends d r) : Act c S ⟨.select d r, s, s, pick⟩
  | closedAs {s pick d} (reason : CloseReason) : Act c S ⟨.closedAs d, s, s.closedAs d reason, pick⟩
  | dropped {s pick d} : Act c S ⟨.drop d, s, s.dropped d, pick⟩
  | rejected {s pick r} :
      Act c S ⟨.reject c r, s, s.updConn c fun k => { k with rejectCh := some r }, pick⟩
  | unheard {s pick r} : Act c S ⟨.reject c r, s, s, pick⟩
  | stored {s pick id f} (hf : S.stores id f) :
      Act c S ⟨.enqueue id f, s, (s.enqueueLocked id f).2, pick⟩
  | other {e} (he : S.does e) : Act c S e

/-! ### What the acts leave alone -/

/-- What queueing and shedding do to a connection. -/
def Conn.queueing (k k' : Conn) : Prop :=
  k' = { k with
    send := k'.send
    rejectCh := k'.rejectCh
    closed := k'.closed
    queued := k'.queued
    reason := k'.reason }

theorem Hub.conns_updConn (h : Hub) {c d : ConnID} {f : Conn → Conn} {φ : Conn → Prop}
    (hf : c = d → φ (h.conns c) → φ (f (h.conns c))) (hφ : φ (h.conns c)) :
    φ ((h.updConn d f).conns c) := by
  by_cases hd : c = d
  · subst hd
    rw [h.updConn_conns_self]
    exact hf rfl hφ
  · rwa [h.updConn_conns_of_ne f hd]

abbrev HubTriple {α : Type} (R : Hub → Hub → Prop) (pre : Assertion Hub Label) (p : HubProc α)
    (post : α → Assertion Hub Label) : Prop :=
  Triple R (fun _ _ => True) pre p post

namespace Act

variable {c d : ConnID} {S : Scope} {α : Type}

/-- What queueing does not falsify of a connection, only own writes and critical sections can. -/
theorem keeps {φ : Conn → Prop} (hφ : ∀ k k' : Conn, k.queueing k' → φ k → φ k') {e : HubSection}
    (he : Act d S e) (hw : c = d → ∀ f, S.writes f → ∀ k, φ k → φ (f k))
    (ht : ∀ e, S.does e → φ (e.pre.conns c) → φ (e.post.conns c)) (hpre : φ (e.pre.conns c)) :
    φ (e.post.conns c) := by
  have hupd : ∀ (s : Hub) (d : ConnID) (f : Conn → Conn), (∀ k : Conn, k.queueing (f k)) →
      φ (s.conns c) → φ ((s.updConn d f).conns c) :=
    fun s d f hf => s.conns_updConn fun _ => hφ _ _ (hf _)
  cases he with
  | observed hl => exact hpre
  | logged event kvs => exact hpre
  | @wrote s pick f hf => exact s.conns_updConn (fun hd => hw hd f hf _) hpre
  | @reserved s pick d r hr =>
    exact hupd s d (fun k => { k with queued := k.queued + r.length }) (fun _ => rfl) hpre
  | @released s pick d r hr =>
    exact hupd s d (fun k => { k with queued := k.queued - r.length }) (fun _ => rfl) hpre
  | @pushed s pick d r hr hroom =>
    exact hupd s d (fun k => { k with send := k.send ++ [r] }) (fun _ => rfl) hpre
  | missed hr => exact hpre
  | @closedAs s pick d reason =>
    refine hupd s d
      (fun k => if k.reason = .unknown then { k with reason := reason } else k) ?_ hpre
    intro k
    split <;> rfl
  | @dropped s pick d => exact hupd s d (fun k => { k with closed := true }) (fun _ => rfl) hpre
  | @rejected s pick r =>
    exact hupd s _ (fun k => { k with rejectCh := some r }) (fun _ => rfl) hpre
  | unheard => exact hpre
  | @stored s pick id f hf =>
    have hconns : (s.enqueueLocked id f).2.conns = s.conns := by
      unfold Hub.enqueueLocked
      dsimp only
      split <;> rfl
    change φ ((s.enqueueLocked id f).2.conns c)
    rwa [hconns]
  | other he => exact ht _ he hpre

/-- Queueing leaves the registry, the connection map and the channels as they are. -/
theorem registry {e : HubSection} (he : Act c S e)
    (ht : ∀ e, S.does e → e.post.agents = e.pre.agents ∧ e.post.clients = e.pre.clients ∧
      e.post.channels = e.pre.channels) :
    e.post.agents = e.pre.agents ∧ e.post.clients = e.pre.clients ∧
      e.post.channels = e.pre.channels := by
  cases he with
  | @stored s pick id f hf =>
    change (s.enqueueLocked id f).2.agents = s.agents ∧
      (s.enqueueLocked id f).2.clients = s.clients ∧
      (s.enqueueLocked id f).2.channels = s.channels
    unfold Hub.enqueueLocked
    dsimp only
    split <;> exact ⟨rfl, rfl, rfl⟩
  | other he => exact ht _ he
  | _ => exact ⟨rfl, rfl, rfl⟩

/-- Without critical sections a program neither looks at the accepted ids nor latches one. -/
theorem sendIDs {e : HubSection} (he : Act c S e) (hd : ∀ e, ¬ S.does e) :
    e.label ≠ .sendIDs ∧ e.label ≠ .latch ∧ e.post.sendIDs = e.pre.sendIDs := by
  cases he with
  | @observed label s pick hl =>
    refine ⟨?_, ?_, rfl⟩
    · rintro rfl
      exact Bool.noConfusion hl
    · rintro rfl
      exact Bool.noConfusion hl
  | @stored s pick id f hf =>
    refine ⟨Label.noConfusion, Label.noConfusion, ?_⟩
    change (s.enqueueLocked id f).2.sendIDs = s.sendIDs
    unfold Hub.enqueueLocked
    dsimp only
    split <;> rfl
  | other he => exact absurd he (hd _)
  | _ => exact ⟨Label.noConfusion, Label.noConfusion, rfl⟩

theorem logf (event : String) (kvs : Hub → List (String × String)) :
    Emits (Act c S) (Dap.logf event kvs) := Emits.modify fun _ _ => .logged event _

theorem read {label : Label} {f : Hub → α} (hl : label.observes = true) :
    Emits (Act c S) (Proc.read label f) := Emits.read fun _ _ => .observed hl

theorem setOwn {f : Conn → Conn} (hf : S.writes f) : Emits (Act c S) (Dap.setOwn c f) :=
  Emits.modify fun _ _ => .wrote hf

theorem does {label : Label} {f : Hub → α × Hub}
    (h : ∀ s pick, S.does ⟨label, s, (f s).2, pick⟩) : Emits (Act c S) (Proc.atomically label f) :=
  Emits.atomically fun s pick => .other (h s pick)

theorem trySend_cases {r : Reply} {pick ok : Bool} {s s' : Hub}
    (h : trySend d r pick s = some (ok, s')) :
    ((s.conns d).send.length < sendBuffer ∧
      s' = s.updConn d fun k => { k with send := k.send ++ [r] }) ∨ s' = s := by
  unfold trySend at h
  dsimp only at h
  split at h
  next hroom =>
    obtain ⟨-, rfl⟩ : true = ok ∧ _ = s' := by simpa using h
    exact .inl ⟨hroom.1, rfl⟩
  next =>
    split at h
    · obtain ⟨-, rfl⟩ : false = ok ∧ s = s' := by simpa using h
      exact .inr rfl
    · simp at h

theorem sendFrame {r : Reply} (hr : S.sends d r) : Emits (Act c S) (Dap.sendFrame d r) := by
  unfold Dap.sendFrame
  have hrelease : Emits (Act c S) (release d r) := Emits.modify fun _ _ => .released hr
  refine Emits.bind (read rfl) fun queued => ?_
  split
  · exact Emits.bind (logf _ _) fun _ => Emits.bind (Emits.modify fun _ _ => .closedAs _) fun _ =>
      Emits.bind (Emits.modify fun _ _ => .dropped) fun _ => Emits.pure _
  · refine Emits.bind (Emits.modify fun _ _ => .reserved hr) fun _ =>
      Emits.bind (read rfl) fun closed => ?_
    split
    · exact Emits.bind hrelease fun _ => Emits.pure _
    · refine Emits.bind (Emits.guarded fun pick s ok s' hf => ?_) fun pushed => ?_
      · rcases trySend_cases hf with ⟨hroom, rfl⟩ | rfl
        · exact .pushed hr hroom
        · exact .missed hr
      · split
        · exact Emits.pure _
        · exact Emits.bind hrelease fun _ => Emits.pure _

end Act

/-- The write that marks a frame as refused. -/
def setCode (code : String) (k : Conn) : Conn := { k with errCode := code }

/-- The scope allows to refuse a frame with this code. -/
def Scope.Refuses (S : Scope) (c : ConnID) (code : String) : Prop :=
  S.writes (setCode code) ∧ ∀ msg, S.sends c (.frame (errorFrame code msg))

/-- The critical sections in which a connection changes what is stored, mailboxes apart, and the
look at the accepted ids. -/
inductive Task (P : Platform) (c : ConnID) : HubSection → Prop where
  | checked {s pick} (f : Frame) (raw : Raw) :
      Task P c ⟨.nonces, s, (s.checkHelloLocked P f raw).2, pick⟩
  | registered {s pick} : Task P c ⟨.mu, s, (s.registerLocked c).2, pick⟩
  | touched {s pick} (id : String) : Task P c ⟨.mu, s, s.touchLastSeenLocked id, pick⟩
  | joined {s pick} (name chanPub : String) :
      Task P c ⟨.mu, s, (s.joinLocked P c name chanPub).2, pick⟩
  | drained {s pick} (id : String) : Task P c ⟨.mu, s, (s.drainLocked id).2, pick⟩
  | looked {s pick} : Task P c ⟨.sendIDs, s, s, pick⟩
  | latched {s pick} (pub key : String) : Task P c ⟨.latch, s, s.addSendID pub key, pick⟩
  | drawn {s pick} : Task P c ⟨.entropy, s, s.drawSecret.2, pick⟩
  | enrolled {s pick} (op : EnrollOp) (name hash : String) :
      Task P c ⟨.mu, s, s.enrollLocked op name hash, pick⟩
  | left {s s' pick r} (hd : s.deregisterLocked c = some (r, s')) : Task P c ⟨.mu, s, s', pick⟩

theorem channelTargets_code {P : Platform} {c : ConnID} {f : Frame} {h : Hub} {e : ProtoError}
    (he : h.channelTargets P c f = .error e) :
    e.code = codeUnknownChannel ∨ e.code = codeDenied := by
  unfold Hub.channelTargets at he
  dsimp only at he
  split at he
  · exact .inl (congrArg ProtoError.code (Except.error.inj he)).symm
  split at he
  · exact .inr (congrArg ProtoError.code (Except.error.inj he)).symm
  split at he
  · exact .inr (congrArg ProtoError.code (Except.error.inj he)).symm
  · simp at he

/-- The copy of a send that its recipients get. -/
def routed (sender : String) (f : Frame) : Frame :=
  if f.to ≠ "" then dmMsg sender f else channelMsg sender f

def Reply.isMsg : Reply → Bool
  | .frame f => f.op = "msg"
  | .enrolled _ => false

/-- What a read loop writes to its own connection. -/
inductive OwnWrite (P : Platform) : (Conn → Conn) → Prop where
  | code (code : String) : OwnWrite P (setCode code)
  | traced (f : Frame) : OwnWrite P fun k => k.traced P f
  | greeted (f : Frame) : OwnWrite P fun k => k.authenticated P f

theorem OwnWrite.send {P : Platform} {f : Conn → Conn} (hf : OwnWrite P f) (k : Conn) :
    (f k).send = k.send := by
  cases hf with
  | code code => rfl
  | traced f =>
    unfold Conn.traced
    split <;> rfl
  | greeted f => rfl

/-- The scope allows whatever a connection does that neither sends nor flushes. -/
structure Scope.Serves (P : Platform) (c : ConnID) (S : Scope) : Prop where
  write : ∀ f, OwnWrite P f → S.writes f
  answer : ∀ r : Reply, r.isMsg = false → S.sends c r
  announce : ∀ p id e, S.sends p (.frame (presenceBroadcast id e))
  task : ∀ e, Task P c e → S.does e

theorem Scope.Serves.refuses {P : Platform} {c : ConnID} {S : Scope} (h : S.Serves P c)
    (code : String) : S.Refuses c code := ⟨h.write _ (.code code), fun _ => h.answer _ rfl⟩

namespace Act

variable {P : Platform} {c d : ConnID} {S : Scope}

theorem sendErr {code : String} (h : S.Refuses c code) (msg : String) :
    Emits (Act c S) (Dap.sendErr c code msg) :=
  Emits.bind (setOwn h.1) fun _ => Emits.bind (logf _ _) fun _ =>
    Emits.bind (sendFrame (h.2 msg)) fun _ => Emits.pure _

theorem reject {code : String} (h : S.Refuses c code) (msg : String) :
    Emits (Act c S) (Dap.reject c code msg) := by
  unfold Dap.reject
  refine Emits.bind (setOwn h.1) fun _ => Emits.bind (logf _ _) fun _ =>
    Emits.bind (Emits.guarded fun pick s ok s' hf => ?_) fun pushed => ?_
  · dsimp only at hf
    split at hf
    · obtain ⟨-, rfl⟩ : true = ok ∧ _ = s' := by simpa using hf
      exact .rejected
    · split at hf
      · obtain ⟨-, rfl⟩ : false = ok ∧ s = s' := by simpa using hf
        exact .unheard
      · simp at hf
  · split
    · refine Emits.guarded fun pick s a s' hf => ?_
      split at hf
      · obtain rfl : s = s' := by simpa using hf
        exact .observed rfl
      · simp at hf
    · exact Emits.pure _

theorem sendPresence (hs : ∀ p id e, S.sends p (.frame (presenceBroadcast id e)))
    (peers : List ConnID) (agentID : String) (e : AgentEntry) :
    Emits (Act c S) (Dap.sendPresence peers agentID e) := by
  unfold Dap.sendPresence
  split
  · exact Emits.pure _
  · exact Emits.bind (read rfl) fun now => Emits.forM fun p _ =>
      Emits.bind (sendFrame (hs p _ _)) fun _ => Emits.pure _

theorem readEntry (p : EntryPtr) : Emits (Act c S) (Dap.readEntry p) :=
  Emits.bind (read rfl) fun _ => Emits.bind (read rfl) fun _ => Emits.bind (read rfl) fun _ =>
    Emits.pure _

theorem register (ha : ∀ p id e, S.sends p (.frame (presenceBroadcast id e)))
    (ht : ∀ e, Task P c e → S.does e) : Emits (Act c S) (Dap.register c) :=
  Emits.bind (does fun _ _ => ht _ .registered) fun _ => Emits.bind (read rfl) fun _ =>
    Emits.bind (readEntry _) fun _ => sendPresence ha _ _ _

theorem enqueue {id : String} {f : Frame} (hf : S.stores id f) :
    Emits (Act c S) (Dap.enqueue id f) := Emits.atomically fun _ _ => .stored hf

theorem deliverDM {f : Frame} (hr : S.Refuses c codeUnknownAgent)
    (hs : ∀ d sender, S.sends d (.frame (dmMsg sender f)))
    (hm : ∀ id sender, S.stores id (dmMsg sender f)) : Emits (Act c S) (Dap.deliverDM c f) := by
  unfold Dap.deliverDM
  refine Emits.bind (read rfl) fun k => Emits.bind (read rfl) fun e => ?_
  split
  · exact Emits.bind (logf _ _) fun _ => Emits.bind (sendErr hr _) fun _ => Emits.pure _
  refine Emits.bind (read rfl) fun target => ?_
  split
  · exact Emits.bind (enqueue (hm _ _)) fun _ => Emits.bind (logf _ _) fun _ => Emits.pure _
  refine Emits.bind (sendFrame (hs _ _)) fun sent => ?_
  split
  · exact Emits.bind (logf _ _) fun _ => Emits.pure _
  · exact Emits.bind (enqueue (hm _ _)) fun _ => Emits.bind (logf _ _) fun _ => Emits.pure _

theorem deliverChannel {f : Frame} (hr : S.Refuses c codeUnknownChannel)
    (hr' : S.Refuses c codeDenied) (hs : ∀ d sender, S.sends d (.frame (channelMsg sender f)))
    (hm : ∀ id sender, S.stores id (channelMsg sender f)) :
    Emits (Act c S) (Dap.deliverChannel P c f) := by
  unfold Dap.deliverChannel
  refine Emits.bind (read rfl) fun k => Emits.bind_atomically (fun _ _ => .observed rfl) fun s => ?_
  cases ht : s.channelTargets P c f with
  | error e =>
    have hcode : S.Refuses c e.code := by
      rcases channelTargets_code ht with h | h
      · exact h ▸ hr
      · exact h ▸ hr'
    exact Emits.bind (logf _ _) fun _ => Emits.bind (sendErr hcode _) fun _ => Emits.pure _
  | ok t =>
    exact Emits.bind (Emits.forM fun m _ => Emits.bind (sendFrame (hs _ _)) fun _ => Emits.pure _)
      fun _ => Emits.bind
        (Emits.forM fun id _ => Emits.bind (enqueue (hm _ _)) fun _ => Emits.pure _)
        fun _ => Emits.bind (logf _ _) fun _ => Emits.pure _

theorem deliver {f : Frame} (hr : ∀ code, code ≠ codeReplay → S.Refuses c code)
    (hs : ∀ d sender, S.sends d (.frame (routed sender f)))
    (hm : ∀ id sender, S.stores id (routed sender f)) : Emits (Act c S) (Dap.deliver P c f) := by
  unfold Dap.deliver
  split
  next hto =>
    simp only [routed, if_pos hto] at hs hm
    exact deliverDM (hr _ (by decide)) hs hm
  next hto =>
    simp only [routed, if_neg hto] at hs hm
    exact deliverChannel (hr _ (by decide)) (hr _ (by decide)) hs hm

theorem handleSend {f : Frame} (hr : ∀ code, S.Refuses c code)
    (hl : ∀ s pick, S.does ⟨.sendIDs, s, s, pick⟩)
    (ha : ∀ s pub key pick, S.does ⟨.latch, s, s.addSendID pub key, pick⟩)
    (hs : ∀ d sender, S.sends d (.frame (routed sender f)))
    (hm : ∀ id sender, S.stores id (routed sender f)) (raw : Raw) :
    Emits (Act c S) (Dap.handleSend P c f raw) := by
  unfold Dap.handleSend
  refine Emits.bind (read rfl) fun k => ?_
  split
  · exact sendErr (hr _) _
  refine Emits.bind (read rfl) fun now => ?_
  split
  · exact sendErr (hr _) _
  split
  · exact sendErr (hr _) _
  refine Emits.bind (Emits.read fun s pick => .other (hl s pick)) fun used => ?_
  split
  · exact sendErr (hr _) _
  refine Emits.bind (deliver (fun code _ => hr code) hs hm) fun accepted => ?_
  split
  · exact Emits.modify fun s pick => .other (ha s _ _ pick)
  · exact Emits.pure _

section Serving

variable (h : S.Serves P c)

include h in
theorem task {α : Type} {label : Label} {f : Hub → α × Hub}
    (ht : ∀ s pick, Task P c ⟨label, s, (f s).2, pick⟩) :
    Emits (Act c S) (Proc.atomically label f) :=
  Emits.atomically fun s pick => .other (h.task _ (ht s pick))

include h in
theorem answer {r : Reply} (hr : r.isMsg = false) : Emits (Act c S) (Dap.sendFrame c r) :=
  sendFrame (h.answer r hr)

include h in
theorem handleHello (f : Frame) (raw : Raw) : Emits (Act c S) (Dap.handleHello P c f raw) := by
  unfold Dap.handleHello welcome
  refine Emits.bind (setOwn (h.write _ (.traced f))) fun _ => Emits.bind (logf _ _) fun _ =>
    Emits.bind (read rfl) fun k => ?_
  split
  · exact sendErr (h.refuses _) _
  refine Emits.bind (task h fun _ _ => .checked f raw) fun r => ?_
  split
  · exact reject (h.refuses _) _
  refine Emits.bind (read rfl) fun k => ?_
  split
  · exact reject (h.refuses _) _
  · exact Emits.bind (setOwn (h.write _ (.greeted f))) fun _ =>
      Emits.bind (register h.announce h.task) fun _ => Emits.bind (answer h rfl) fun _ =>
        Emits.pure _

include h in
theorem handleWhois (f : Frame) : Emits (Act c S) (Dap.handleWhois c f) := by
  unfold Dap.handleWhois
  refine Emits.bind (read rfl) fun e => ?_
  split
  · exact sendErr (h.refuses _) _
  · exact Emits.bind (answer h rfl) fun _ => Emits.pure _

include h in
theorem handlePresenceQuery (f : Frame) : Emits (Act c S) (Dap.handlePresenceQuery c f) :=
  Emits.bind (read rfl) fun _ => Emits.bind (answer h rfl) fun _ => Emits.pure _

include h in
theorem handleJoin (f : Frame) : Emits (Act c S) (Dap.handleJoin P c f) := by
  unfold Dap.handleJoin joinChannel
  split
  · exact sendErr (h.refuses _) _
  refine Emits.bind (Emits.bind (task h fun _ _ => .joined _ _) fun r => ?_) fun r => ?_
  · split
    · exact Emits.bind (logf _ _) fun _ => Emits.pure _
    · exact Emits.bind (logf _ _) fun _ => Emits.pure _
    · exact Emits.bind (read rfl) fun _ => Emits.bind (sendPresence h.announce _ _ _) fun _ =>
        Emits.bind (logf _ _) fun _ => Emits.pure _
  · split
    · exact sendErr (h.refuses _) _
    · exact Emits.bind (answer h rfl) fun _ => Emits.pure _

include h in
theorem handleFlush (hs : ∀ m, S.sends c (.frame m)) : Emits (Act c S) (Dap.handleFlush c) := by
  unfold Dap.handleFlush
  refine Emits.bind (read rfl) fun k => Emits.bind (task h fun _ _ => .drained _) fun r =>
    Emits.bind (Emits.forM fun m _ => Emits.bind (sendFrame (hs m)) fun _ => Emits.pure _)
      fun _ => ?_
  have hend : Emits (Act c S) (do
      let _ ← Dap.sendFrame c (.frame (flushedFrame r.1.length))
      Dap.logf "flush" fun _ => [("agent", k.agentID), ("count", toString r.1.length),
        ("overflowed", toString r.2)]) := Emits.bind (answer h rfl) fun _ => logf _ _
  dsimp only
  split
  · exact Emits.bind (sendErr (h.refuses _) _) fun _ => hend
  · exact hend

include h in
theorem enroll (op : EnrollOp) : Emits (Act c S) (Dap.enroll P c op) := by
  unfold Dap.enroll
  refine Emits.bind (read rfl) fun k => ?_
  split
  · exact sendErr (h.refuses _) _
  · exact Emits.bind (task h fun _ _ => .drawn) fun secret =>
      Emits.bind (task h fun _ _ => .enrolled _ _ _) fun _ => Emits.bind (logf _ _) fun _ =>
        Emits.bind (answer h rfl) fun _ => Emits.pure _

include h in
/-- Only sends and flushes need more than the scope of a serving connection. -/
theorem handler {op : String} {f : Frame} {raw : Raw} {handle : HubProc Unit}
    (hsend : op = "send" → Emits (Act c S) (Dap.handleSend P c f raw))
    (hflush : op = "flush" → Emits (Act c S) (Dap.handleFlush c))
    (hh : Dap.handler P c op f raw = some handle) : Emits (Act c S) handle := by
  unfold Dap.handler at hh
  split at hh
  · exact Option.some.inj hh ▸ handleHello h f raw
  split at hh
  · exact Option.some.inj hh ▸ handleWhois h f
  split at hh
  · exact Option.some.inj hh ▸ handlePresenceQuery h f
  split at hh
  · exact Option.some.inj hh ▸ handleJoin h f
  split at hh
  next hop => exact Option.some.inj hh ▸ hsend hop
  split at hh
  next hop => exact Option.some.inj hh ▸ hflush hop
  split at hh
  · exact Option.some.inj hh ▸ enroll h .enroll
  split at hh
  · exact Option.some.inj hh ▸ enroll h .enrollCreate
  · simp at hh

end Serving

theorem deregister (h : S.Serves P c) : Emits (Act c S) (Dap.deregister c) := by
  unfold Dap.deregister
  refine Emits.bind (Emits.modify fun _ _ => .dropped) fun _ =>
    Emits.bind (Emits.guarded fun pick s r s' hd => .other (h.task _ (.left hd))) fun left => ?_
  split
  · exact Emits.pure _
  · exact Emits.bind (read rfl) fun _ => Emits.bind (readEntry _) fun _ =>
      sendPresence h.announce _ _ _

/-- Whatever a connection does. -/
theorem serve (h : S.Serves P c) (hs : ∀ d m, S.sends d (.frame m)) (hm : ∀ id m, S.stores id m)
    (remote : String) (messages : List Message) :
    Emits (Act c S) (Dap.serve P c remote messages) := by
  have hlog : ∀ op id code, Emits (Act c S) (logOp c op id code) := fun _ _ _ => logf _ _
  have hdispatch : ∀ data, Emits (Act c S) (dispatch P c data) := by
    intro data
    unfold dispatch dispatchFrame
    refine Emits.bind (setOwn (h.write _ (.code ""))) fun _ => ?_
    split
    · exact Emits.bind (sendErr (h.refuses _) _) fun _ => hlog _ _ _
    refine Emits.bind (read rfl) fun k => ?_
    split
    · exact Emits.bind (sendErr (h.refuses _) _) fun _ => hlog _ _ _
    refine Emits.bind (task h fun _ _ => .touched _) fun _ => ?_
    split
    next handle hh =>
      refine Emits.bind (handler h ?_ ?_ hh) fun _ => hlog _ _ _
      · exact fun _ => handleSend h.refuses (fun _ _ => h.task _ .looked)
          (fun _ _ _ _ => h.task _ (.latched _ _)) (fun d _ => hs d _) (fun id _ => hm id _) _
      · exact fun _ => handleFlush h (hs c)
    · exact Emits.bind (sendErr (h.refuses _) _) fun _ => hlog _ _ _
  have hread : Emits (Act c S) (readLoop P c messages) := by
    induction messages with
    | nil => exact Emits.pure _
    | cons m rest ih =>
      unfold readLoop
      refine Emits.bind (read rfl) fun closed => ?_
      split
      · exact Emits.pure _
      · cases m with
        | binary data => exact Emits.bind (sendErr (h.refuses _) _) fun _ => ih
        | text data =>
          dsimp only
          split
          · exact reject (h.refuses _) _
          · exact Emits.bind (hdispatch data) fun _ => ih
  exact Emits.bind (logf _ _) fun _ => Emits.bind hread fun _ =>
    Emits.bind (deregister h) fun _ => logf _ _

end Act

end Dap
