import Dap.Hub.Coherence
import Dap.Hub.Replay

/-! The goroutine of a connection refines the transition system: each section that it executes,
among whatever the others do, is one of its steps. -/
namespace Dap
open Proc

variable {P : Platform}

/-- What everybody but `c` may have done between two sections of `c`. -/
def Others (P : Platform) (c : ConnID) : Hub → Hub → Prop :=
  Relation.ReflTransGen fun h h' => ∃ who, who ≠ some c ∧ Step P who h h'

theorem Step.who_of_ne {who : Option ConnID} {h h' : Hub} {c : ConnID} (hs : Step P who h h')
    (hne : who ≠ some c) : h'.who c = h.who c := by
  cases hs with
  | quiet hq => exact hq.identity c
  | opened d auth boundName hs => exact h.who_updConn_of_ne _ fun hd => hne (congrArg some hd.symm)
  | greeted d f raw hs hv hn => exact h.who_updConn_of_ne _ fun hd => hne (congrArg some hd.symm)
  | registered d hs =>
    exact (h.registerLocked_spec d).others c fun hd => hne (congrArg some hd.symm)
  | touched d hs => rw [h.touchLastSeenLocked_frame]; rfl
  | joined d name chanPub hs => rw [Hub.joinLocked_frame]; rfl
  | enqueued d agentID f hs => rw [Hub.enqueueLocked_frame]; rfl
  | drained d hs => rfl
  | latched d key hs => rfl
  | enrolled d op hash hs ha => rfl
  | left d r hs hc hd =>
    have hdc : c ≠ d := fun hd => hne (congrArg some hd.symm)
    unfold Hub.who
    rw [Hub.deregisterLocked_conns hd, h.updConn_conns_of_ne _ hdc]
  | evicted id =>
    rcases h.adminEvictLocked_spec id with heq | ⟨-, -, -, hconns⟩
    · rw [heq]
    · simp [Hub.who, hconns]
  | aclSet name allowed => rfl

theorem Step.closed_of_ne {who : Option ConnID} {h h' : Hub} {c : ConnID} (hs : Step P who h h')
    (hne : who ≠ some c) (hc : (h.conns c).closed = true) : (h'.conns c).closed = true := by
  cases hs with
  | quiet hq => exact hq.closed c hc
  | opened d auth boundName hs =>
    exact (h.updConn_conns_of_ne _ fun hd => hne (congrArg some hd.symm)) ▸ hc
  | greeted d f raw hs hv hn =>
    exact (h.updConn_conns_of_ne _ fun hd => hne (congrArg some hd.symm)) ▸ hc
  | registered d hs => exact (h.registerLocked_spec d).closed c hc
  | touched d hs => rw [h.touchLastSeenLocked_frame]; exact hc
  | joined d name chanPub hs => rw [Hub.joinLocked_frame]; exact hc
  | enqueued d agentID f hs => rw [Hub.enqueueLocked_frame]; exact hc
  | drained d hs => exact hc
  | latched d key hs => exact hc
  | enrolled d op hash hs ha => exact hc
  | left d r hs _ hd =>
    have hdc : c ≠ d := fun hd => hne (congrArg some hd.symm)
    rwa [Hub.deregisterLocked_conns hd, h.updConn_conns_of_ne _ hdc]
  | evicted id =>
    rcases h.adminEvictLocked_spec id with heq | ⟨-, -, -, hconns⟩
    · rwa [heq]
    · rwa [hconns]
  | aclSet name allowed => exact hc

/-- The surroundings of a goroutine: `R` bounds what the others do, and everybody keeps `I`. -/
structure Surroundings (P : Platform) (c : ConnID) (R : Hub → Hub → Prop) (I : Hub → Prop) :
    Prop where
  stable : Stable R I
  identity : ∀ h h', R h h' → h'.who c = h.who c
  closed : ∀ h h', R h h' → (h.conns c).closed = true → (h'.conns c).closed = true
  step : ∀ h h', I h → Step P (some c) h h' → I h'
  coherent : ∀ h, I h → Coherent P h

theorem surroundings_reachable (P : Platform) (c : ConnID) :
    Surroundings P c (Others P c) (Reachable P) where
  stable h h' hR hr := by
    induction hR with
    | refl => exact hr
    | tail _ hs ih => exact ih.step hs.choose_spec.2
  identity h h' hR := by
    induction hR with
    | refl => rfl
    | tail _ hs ih => exact (hs.choose_spec.2.who_of_ne hs.choose_spec.1).trans ih
  closed h h' hR hc := by
    induction hR with
    | refl => exact hc
    | tail _ hs ih => exact hs.choose_spec.2.closed_of_ne hs.choose_spec.1 ih
  step h h' hr hs := hr.step hs
  coherent h hr := .reachable hr

section Sections

variable {c : ConnID} {R : Hub → Hub → Prop} {I : Hub → Prop} {k : Identity} {α : Type}

/-- A section of `c`'s goroutine, executed where `I` holds. -/
def Own (P : Platform) (c : ConnID) (I : Hub → Prop) (e : Section Hub Label) : Prop :=
  I e.pre ∧ Step P (some c) e.pre e.post

/-- Where `I` holds and `c` speaks for `k`. -/
def At (I : Hub → Prop) (c : ConnID) (k : Identity) (h : Hub) : Prop := I h ∧ h.who c = k

theorem Surroundings.stable_at (S : Surroundings P c R I) (k : Identity) : Stable R (At I c k) :=
  fun h h' hR hat => ⟨S.stable h h' hR hat.1, (S.identity h h' hR).trans hat.2⟩

/-- The program leaves `c` the agent it is. -/
def Keeps (P : Platform) (c : ConnID) (R : Hub → Hub → Prop) (I : Hub → Prop) (k : Identity)
    (p : HubProc α) : Prop :=
  Sat R (Own P c I) (At I c k) p fun _ => At I c k

namespace Keeps

theorem pure (a : α) : Keeps P c R I k (Pure.pure a) := Sat.pure fun _ h => h

theorem bind {β : Type} {p : HubProc α} {q : α → HubProc β} (hp : Keeps P c R I k p)
    (hq : ∀ a, Keeps P c R I k (q a)) : Keeps P c R I k (p >>= q) := Sat.bind hp hq

theorem forM {xs : List α} {body : α → HubProc PUnit} (h : ∀ x ∈ xs, Keeps P c R I k (body x)) :
    Keeps P c R I k (xs.forM body) := Sat.forM h

variable (S : Surroundings P c R I)

include S in
theorem guarded {label : Label} {f : Bool → Hub → Option (α × Hub)}
    (h : ∀ pick s a s', At I c k s → f pick s = some (a, s') →
      Step P (some c) s s' ∧ s'.who c = k) : Keeps P c R I k (Proc.guarded label f) :=
  Sat.guarded (S.stable_at k) fun pick s a s' hat hf =>
    have hs := h pick s a s' hat hf
    ⟨⟨hat.1, hs.1⟩, S.step s s' hat.1 hs.1, hs.2⟩

include S in
theorem atomically {label : Label} {f : Hub → α × Hub}
    (h : ∀ s, At I c k s → Step P (some c) s (f s).2 ∧ (f s).2.who c = k) :
    Keeps P c R I k (Proc.atomically label f) :=
  Sat.atomically (S.stable_at k) fun s _ hat =>
    have hs := h s hat
    ⟨⟨hat.1, hs.1⟩, S.step s _ hat.1 hs.1, hs.2⟩

include S in
theorem modify {label : Label} {f : Hub → Hub}
    (h : ∀ s, At I c k s → Step P (some c) s (f s) ∧ (f s).who c = k) :
    Keeps P c R I k (Proc.modify label f) := atomically S h

include S in
theorem quiet {label : Label} {f : Hub → Hub} (h : ∀ s, Quiet s (f s)) :
    Keeps P c R I k (Proc.modify label f) :=
  modify S fun s hat => ⟨.quiet (h s), ((h s).identity c).trans hat.2⟩

include S in
theorem read {label : Label} {f : Hub → α} : Keeps P c R I k (Proc.read label f) :=
  atomically S fun s hat => ⟨.quiet (.refl s), hat.2⟩

include S in
theorem logf (event : String) (kvs : Hub → List (String × String)) :
    Keeps P c R I k (Dap.logf event kvs) := quiet S fun s => .logged s event (kvs s)

include S in
theorem setOwn (d : ConnID) {f : Conn → Conn} (hid : ∀ k, (f k).identity = k.identity)
    (hcl : ∀ k, k.closed = true → (f k).closed = true) : Keeps P c R I k (Dap.setOwn d f) :=
  quiet S fun s => s.quiet_updConn d f (hid _) (hcl _)

include S in
/-- Sending to any connection is quiet. -/
theorem sendFrame (d : ConnID) (r : Reply) : Keeps P c R I k (Dap.sendFrame d r) := by
  unfold Dap.sendFrame
  refine bind (read S) fun queued => ?_
  split
  · refine bind (logf S _ _) fun _ => bind (quiet S fun s => .closedAs s d _) fun _ =>
      bind (quiet S fun s => .dropped s d) fun _ => pure _
  · refine bind (quiet S fun s => s.quiet_updConn d _ rfl fun hc => hc) fun _ =>
      bind (read S) fun closed => ?_
    have hrelease : Keeps P c R I k (release d r) :=
      quiet S fun s => s.quiet_updConn d _ rfl fun hc => hc
    split
    · exact bind hrelease fun _ => pure _
    · refine bind (guarded S ?_) fun pushed => ?_
      · intro pick s a s' hat hf
        have hq : Quiet s s' := by
          unfold trySend at hf
          dsimp only at hf
          split at hf
          · obtain ⟨-, rfl⟩ : true = a ∧ _ = s' := by simpa using hf
            exact s.quiet_updConn d _ rfl fun hc => hc
          · split at hf
            · obtain ⟨-, rfl⟩ : false = a ∧ s = s' := by simpa using hf
              exact .refl s
            · simp at hf
        exact ⟨.quiet hq, (hq.identity c).trans hat.2⟩
      · split
        · exact pure _
        · exact bind hrelease fun _ => pure _

include S in
theorem sendErr (d : ConnID) (code msg : String) : Keeps P c R I k (Dap.sendErr d code msg) := by
  unfold Dap.sendErr
  refine bind (setOwn S d (fun _ => rfl) fun _ hc => hc) fun _ => bind (logf S _ _) fun _ =>
    bind (sendFrame S _ _) fun _ => pure _

include S in
theorem reject (d : ConnID) (code msg : String) : Keeps P c R I k (Dap.reject d code msg) := by
  unfold Dap.reject
  refine bind (quiet S fun s => s.quiet_updConn d _ rfl fun hc => hc) fun _ =>
    bind (logf S _ _) fun _ => bind (guarded S ?_) fun pushed => ?_
  · intro pick s a s' hat hf
    have hq : Quiet s s' := by
      dsimp only at hf
      split at hf
      · obtain ⟨-, rfl⟩ : true = a ∧ _ = s' := by simpa using hf
        exact s.quiet_updConn d _ rfl fun hc => hc
      · split at hf
        · obtain ⟨-, rfl⟩ : false = a ∧ s = s' := by simpa using hf
          exact .refl s
        · simp at hf
    exact ⟨.quiet hq, (hq.identity c).trans hat.2⟩
  · split
    · refine guarded S ?_
      intro pick s a s' hat hf
      obtain ⟨-, rfl⟩ : (s.conns d).closed = true ∧ s = s' := by simpa using hf
      exact ⟨.quiet (.refl s), hat.2⟩
    · exact pure _

include S in
theorem sendPresence (peers : List ConnID) (agentID : String) (e : AgentEntry) :
    Keeps P c R I k (Dap.sendPresence peers agentID e) := by
  unfold Dap.sendPresence
  split
  · exact pure _
  · exact bind (read S) fun _ => forM fun _ _ => bind (sendFrame S _ _) fun _ => pure _

include S in
theorem readEntry (p : EntryPtr) : Keeps P c R I k (Dap.readEntry p) :=
  bind (read S) fun _ => bind (read S) fun _ => bind (read S) fun _ => pure _

include S in
theorem lookupAgent (agentID : String) : Keeps P c R I k (Dap.lookupAgent agentID) := read S

include S in
theorem handleWhois (f : Frame) : Keeps P c R I k (Dap.handleWhois c f) := by
  unfold Dap.handleWhois
  refine bind (lookupAgent S _) fun e => ?_
  split
  · exact sendErr S c _ _
  · exact bind (sendFrame S _ _) fun _ => pure _

include S in
theorem handlePresenceQuery (f : Frame) : Keeps P c R I k (Dap.handlePresenceQuery c f) :=
  bind (read S) fun _ => bind (sendFrame S _ _) fun _ => pure _

/-! ### Operations of a registered connection -/

variable (hk : k.stage = .serving)

include S in
theorem touchLastSeen (ha : k.stage = .reading ∨ k.stage = .serving) :
    Keeps P c R I k (Dap.touchLastSeen k.agentID) := by
  refine modify S fun s hat => ?_
  obtain ⟨-, rfl⟩ := hat
  refine ⟨.touched c ha, ?_⟩
  rw [s.touchLastSeenLocked_frame]
  rfl

include S hk in
theorem enqueue (agentID : String) (f : Frame) : Keeps P c R I k (Dap.enqueue agentID f) := by
  refine atomically S fun s hat => ?_
  obtain ⟨-, rfl⟩ := hat
  refine ⟨.enqueued c agentID f hk, ?_⟩
  rw [Hub.enqueueLocked_frame]
  rfl

include S hk in
theorem drain : Keeps P c R I k (Dap.drain k.agentID) := by
  refine atomically S fun s hat => ?_
  obtain ⟨-, rfl⟩ := hat
  exact ⟨.drained c hk, rfl⟩

end Keeps

variable (S : Surroundings P c R I)

include S in
/-- A connection's own fields are what they were when last written. -/
theorem ownConn_spec : Sat R (Own P c I) (At I c k) (ownConn c)
    fun a s => a.identity = k ∧ At I c k s :=
  Sat.read (S.stable_at k) fun s _ hat => ⟨⟨hat.1, .quiet (.refl s)⟩, hat.2, hat⟩

include S in
theorem Keeps.ownConn_bind {q : Conn → HubProc α}
    (h : ∀ a : Conn, a.identity = k → Keeps P c R I k (q a)) :
    Keeps P c R I k (ownConn c >>= q) :=
  Sat.bind (ownConn_spec S) fun a => Sat.assume (h a)

namespace Keeps

variable (hk : k.stage = .serving)

include S hk in
theorem handleFlush : Keeps P c R I k (Dap.handleFlush c) := by
  unfold Dap.handleFlush
  refine ownConn_bind S fun a ha => ?_
  have hid : a.agentID = k.agentID := congrArg Identity.agentID ha
  rw [hid]
  refine bind (drain S hk) fun r => bind (forM fun _ _ => bind (sendFrame S _ _) fun _ => pure _)
    fun _ => ?_
  have hend : Keeps P c R I k (do
      let _ ← Dap.sendFrame c (.frame (flushedFrame r.1.length))
      Dap.logf "flush" fun _ => [("agent", a.agentID), ("count", toString r.1.length),
        ("overflowed", toString r.2)]) := bind (sendFrame S _ _) fun _ => logf S _ _
  rw [hid] at hend
  dsimp only
  split
  · exact bind (sendErr S c _ _) fun _ => hend
  · exact hend

include S hk in
theorem joinChannel (name chanPub : String) :
    Keeps P c R I k (Dap.joinChannel P c name chanPub) := by
  unfold Dap.joinChannel
  refine bind (atomically S fun s hat => ?_) fun r => ?_
  · obtain ⟨-, rfl⟩ := hat
    refine ⟨.joined c name chanPub hk, ?_⟩
    rw [Hub.joinLocked_frame]
    rfl
  · split
    · exact bind (logf S _ _) fun _ => pure _
    · exact bind (logf S _ _) fun _ => pure _
    · exact ownConn_bind S fun a _ =>
        bind (sendPresence S _ _ _) fun _ => bind (logf S _ _) fun _ => pure _

include S hk in
theorem handleJoin (f : Frame) : Keeps P c R I k (Dap.handleJoin P c f) := by
  unfold Dap.handleJoin
  split
  · exact sendErr S c _ _
  · refine bind (joinChannel S hk _ _) fun r => ?_
    split
    · exact sendErr S c _ _
    · exact bind (sendFrame S _ _) fun _ => pure _

include S hk in
theorem deliverChannel (f : Frame) : Keeps P c R I k (Dap.deliverChannel P c f) := by
  unfold Dap.deliverChannel
  refine ownConn_bind S fun a _ => bind (read S) fun r => ?_
  split
  · exact bind (logf S _ _) fun _ => bind (sendErr S c _ _) fun _ => pure _
  · exact bind (forM fun _ _ => bind (sendFrame S _ _) fun _ => pure _) fun _ =>
      bind (forM fun _ _ => bind (enqueue S hk _ _) fun _ => pure _) fun _ =>
        bind (logf S _ _) fun _ => pure _

include S hk in
theorem deliverDM (f : Frame) : Keeps P c R I k (Dap.deliverDM c f) := by
  unfold Dap.deliverDM
  refine ownConn_bind S fun a _ => bind (lookupAgent S _) fun e => ?_
  split
  · exact bind (logf S _ _) fun _ => bind (sendErr S c _ _) fun _ => pure _
  · refine bind (read S) fun target => ?_
    split
    · exact bind (enqueue S hk _ _) fun _ => bind (logf S _ _) fun _ => pure _
    · refine bind (sendFrame S _ _) fun ok => ?_
      split
      · exact bind (logf S _ _) fun _ => pure _
      · exact bind (enqueue S hk _ _) fun _ => bind (logf S _ _) fun _ => pure _

include S hk in
theorem deliver (f : Frame) : Keeps P c R I k (Dap.deliver P c f) := by
  unfold Dap.deliver
  split
  · exact deliverDM S hk f
  · exact deliverChannel S hk f

include S hk in
theorem handleSend (f : Frame) (raw : Raw) : Keeps P c R I k (Dap.handleSend P c f raw) := by
  unfold Dap.handleSend
  refine ownConn_bind S fun a ha => ?_
  split
  · exact sendErr S c _ _
  · refine bind (read S) fun now => ?_
    split
    · exact sendErr S c _ _
    split
    · exact sendErr S c _ _
    refine bind (read S) fun used => ?_
    split
    · exact sendErr S c _ _
    refine bind (deliver S hk f) fun accepted => ?_
    split
    · refine modify S fun s hat => ?_
      have hpub : a.pubkey = (s.conns c).pubkey :=
        congrArg Identity.pubkey (ha.trans hat.2.symm)
      obtain ⟨-, rfl⟩ := hat
      rw [hpub]
      exact ⟨.latched c (sendKey f) hk, rfl⟩
    · exact pure _

include S hk in
theorem enroll (op : EnrollOp) : Keeps P c R I k (Dap.enroll P c op) := by
  unfold Dap.enroll
  refine ownConn_bind S fun a ha => ?_
  split
  · exact sendErr S c _ _
  next hauth =>
    refine bind (atomically S fun s hat => ⟨.quiet (.of_conns (by constructor <;> rfl) rfl), hat.2⟩)
      fun secret => bind (modify S fun s hat => ?_) fun _ => bind (logf S _ _) fun _ =>
        bind (sendFrame S _ _) fun _ => pure _
    have hname : a.name = (s.conns c).name := congrArg Identity.name (ha.trans hat.2.symm)
    have hauth' : a.auth = (s.conns c).auth := congrArg Identity.auth (ha.trans hat.2.symm)
    obtain ⟨-, rfl⟩ := hat
    rw [hname]
    exact ⟨.enrolled c op _ hk (hauth'.symm.trans (not_not.mp hauth)), rfl⟩

end Keeps

/-! ### From the hello to the end of the connection -/

def Stage.alive (stage : Stage) : Prop := stage = .reading ∨ stage = .serving

/-- Where `I` holds and `c` is ready to read a frame. -/
def Alive (I : Hub → Prop) (c : ConnID) (h : Hub) : Prop := I h ∧ (h.who c).stage.alive

theorem Sat.of_alive {p : HubProc α} {post : α → Hub → Prop}
    (h : ∀ k : Identity, k.stage.alive → Sat R (Own P c I) (At I c k) p post) :
    Sat R (Own P c I) (Alive I c) p post := by
  refine (Sat.choose (M := fun k s => k.stage.alive ∧ At I c k s)
    fun k => Sat.assume (h k)).mono ?_ fun _ _ hs => hs
  rintro s ⟨hI, hs⟩
  exact ⟨s.who c, hs, hI, rfl⟩

theorem Keeps.to_alive {p : HubProc α} (h : Keeps P c R I k p) (hk : k.stage.alive) :
    Sat R (Own P c I) (At I c k) p fun _ => Alive I c := by
  refine Sat.mono h (fun _ hs => hs) ?_
  rintro _ s ⟨hI, rfl⟩
  exact ⟨hI, hk⟩

include S in
theorem logOp_spec (op id : String) (code : Conn → String) :
    Sat R (Own P c I) (Alive I c) (logOp c op id code) fun _ => Alive I c :=
  Sat.of_alive fun _ hk => (Keeps.logf S _ _).to_alive hk

def Identity.authenticated (P : Platform) (k : Identity) (f : Frame) : Identity :=
  ⟨.greeted, true, helloAgentID P f.pubkey, f.pubkey, f.x25519, f.name, k.auth, k.boundName⟩

include S in
theorem register_spec (hk : k.stage = .greeted) :
    Sat R (Own P c I) (At I c k) (register c) fun _ => At I c { k with stage := .serving } := by
  unfold register
  refine Sat.bind (M := fun _ => At I c { k with stage := .serving })
    (Sat.atomically (S.stable_at k) ?_) fun r => ?_
  · rintro s - ⟨hI, rfl⟩
    have hs : Step P (some c) s (s.registerLocked c).2 := .registered c hk
    exact ⟨⟨hI, hs⟩, S.step s _ hI hs, (s.registerLocked_spec c).self⟩
  · exact Keeps.bind (Keeps.read S) fun _ => Keeps.bind (Keeps.readEntry S _) fun _ =>
      Keeps.sendPresence S _ _ _

include S in
theorem welcome_spec {f : Frame} {raw : Raw} (hk : k.stage = .reading)
    (hv : verifySignature P f raw f.pubkey = none) :
    Sat R (Own P c I) (At I c k) (welcome P c f) fun _ => Alive I c := by
  unfold welcome
  refine Sat.bind (ownConn_spec S) fun a => Sat.assume fun ha => ?_
  split
  · exact (Keeps.reject S c _ _).to_alive (.inl hk)
  next hname =>
    refine Sat.bind (M := fun _ => At I c (k.authenticated P f))
      (Sat.modify (S.stable_at k) ?_) fun _ => ?_
    · rintro s - ⟨hI, rfl⟩
      have hauth : a.auth = (s.conns c).auth := congrArg Identity.auth ha
      have hbound : a.boundName = (s.conns c).boundName := congrArg Identity.boundName ha
      have hs : Step P (some c) s (s.updConn c fun k => k.authenticated P f) := by
        refine .greeted c f raw hk hv fun hagent => ?_
        by_contra hne
        exact hname ⟨hauth.trans hagent, hbound ▸ hne⟩
      refine ⟨⟨hI, hs⟩, S.step s _ hI hs, ?_⟩
      simp [Hub.who, Conn.identity, Conn.authenticated, Identity.authenticated]
    · exact Sat.bind (register_spec S rfl) fun _ =>
        (Keeps.bind (Keeps.sendFrame S _ _) fun _ => Keeps.pure _).to_alive (.inr rfl)

include S in
theorem handleHello_spec (hk : k.stage.alive) (f : Frame) (raw : Raw) :
    Sat R (Own P c I) (At I c k) (handleHello P c f raw) fun _ => Alive I c := by
  unfold handleHello
  refine Sat.bind (Keeps.setOwn S c ?_ ?_) fun _ => Sat.bind (Keeps.logf S _ _) fun _ =>
    Sat.bind (M := fun a s => a.authed = k.authed ∧ (I s ∧ s.who c = k ∧
      (k.stage = .reading → k.authed = false) ∧ (k.stage = .serving → k.authed = true)))
      (Sat.read (S.stable_at k) ?_) fun a => Sat.assume fun ha => ?_
  · intro k
    unfold Conn.traced
    split <;> rfl
  · intro k hc
    unfold Conn.traced
    split <;> exact hc
  · rintro s - ⟨hI, rfl⟩
    have hsound := (S.coherent s hI).sound c
    exact ⟨⟨hI, .quiet (.refl s)⟩, rfl, hI, rfl, fun h => hsound.early (.inr h),
      fun h => hsound.late (.inr h)⟩
  · refine Sat.mono (?_ : Sat R (Own P c I)
        (fun s => (k.stage = .serving → k.authed = true) ∧ At I c k s) _ fun _ => Alive I c)
      (fun s hs => ⟨hs.2.2.2, hs.1, hs.2.1⟩) fun _ _ hs => hs
    refine Sat.assume fun hserving => ?_
    split
    · exact (Keeps.sendErr S c _ _).to_alive hk
    next hna =>
      have hreading : k.stage = .reading := by
        rcases hk with hk | hk
        · exact hk
        · exact absurd (ha.trans (hserving hk)) hna
      refine Sat.bind (M := fun r s => (r = none → verifySignature P f raw f.pubkey = none) ∧
        At I c k s) (Sat.atomically (S.stable_at k) ?_) fun r => Sat.assume fun hr => ?_
      · rintro s - ⟨hI, rfl⟩
        have hs : Step P (some c) s (s.checkHelloLocked P f raw).2 :=
          .quiet (.of_conns (by constructor <;> rfl) rfl)
        exact ⟨⟨hI, hs⟩, fun hnone => (checkHello_accepts.mp hnone).2.1, S.step s _ hI hs, rfl⟩
      · split
        · exact (Keeps.reject S c _ _).to_alive hk
        · exact welcome_spec S hreading (hr rfl)

include S in
theorem handler_spec (hk : k.stage.alive) (f : Frame) (raw : Raw) {op : String}
    (hop : op ≠ "hello" → k.stage = .serving) {handle : HubProc Unit}
    (hh : handler P c op f raw = some handle) :
    Sat R (Own P c I) (At I c k) handle fun _ => Alive I c := by
  unfold handler at hh
  by_cases hhello : op = "hello"
  · rw [if_pos hhello] at hh
    obtain rfl := Option.some.inj hh
    exact handleHello_spec S hk f raw
  · rw [if_neg hhello] at hh
    have hserving := hop hhello
    refine Keeps.to_alive ?_ hk
    split at hh
    · exact Option.some.inj hh ▸ Keeps.handleWhois S f
    split at hh
    · exact Option.some.inj hh ▸ Keeps.handlePresenceQuery S f
    split at hh
    · exact Option.some.inj hh ▸ Keeps.handleJoin S hserving f
    split at hh
    · exact Option.some.inj hh ▸ Keeps.handleSend S hserving f raw
    split at hh
    · exact Option.some.inj hh ▸ Keeps.handleFlush S hserving
    split at hh
    · exact Option.some.inj hh ▸ Keeps.enroll S hserving .enroll
    split at hh
    · exact Option.some.inj hh ▸ Keeps.enroll S hserving .enrollCreate
    · simp at hh

include S in
theorem dispatchFrame_spec (hk : k.stage.alive) (f : Frame) (raw : Raw) :
    Sat R (Own P c I) (At I c k) (dispatchFrame P c f raw) fun _ => Alive I c := by
  unfold dispatchFrame
  refine Sat.bind (M := fun a s => (a.identity = k ∧
      (a.authed = true → k.stage = .serving)) ∧ At I c k s)
    (Sat.read (S.stable_at k) ?_) fun a => Sat.assume fun ha => ?_
  · rintro s - ⟨hI, rfl⟩
    refine ⟨⟨hI, .quiet (.refl s)⟩, ⟨rfl, fun hauth => ?_⟩, hI, rfl⟩
    rcases hk with hk | hk
    · have hno := ((S.coherent s hI).sound c).early (.inr hk)
      exact absurd (hauth.symm.trans hno) (by simp)
    · exact hk
  · split
    · exact Sat.bind ((Keeps.sendErr S c _ _).to_alive hk) fun _ => logOp_spec S _ _ _
    next hop =>
      have hid : a.agentID = k.agentID := congrArg Identity.agentID ha.1
      rw [hid]
      refine Sat.bind (Keeps.touchLastSeen S hk) fun _ => ?_
      split
      next handle hh =>
        refine Sat.bind (handler_spec S hk f raw ?_ hh) fun _ => logOp_spec S _ _ _
        intro hne
        refine ha.2 ?_
        by_contra hna
        exact hop ⟨hna, hne⟩
      · exact Sat.bind ((Keeps.sendErr S c _ _).to_alive hk) fun _ => logOp_spec S _ _ _

include S in
theorem dispatch_spec (data : Bytes) :
    Sat R (Own P c I) (Alive I c) (dispatch P c data) fun _ => Alive I c := by
  refine Sat.of_alive fun k hk => ?_
  unfold dispatch
  refine Sat.bind (Keeps.setOwn S c (fun _ => rfl) fun _ hc => hc) fun _ => ?_
  split
  · exact Sat.bind ((Keeps.sendErr S c _ _).to_alive hk) fun _ => logOp_spec S _ _ _
  · exact dispatchFrame_spec S hk _ _

include S in
/-- Whatever messages arrive, the read loop takes steps of its connection only. -/
theorem readLoop_spec (messages : List Message) :
    Sat R (Own P c I) (Alive I c) (readLoop P c messages) fun _ => Alive I c := by
  induction messages with
  | nil => exact Sat.pure fun _ hs => hs
  | cons m rest ih =>
    unfold readLoop
    refine Sat.bind (Sat.of_alive fun k hk => (Keeps.read S).to_alive hk) fun closed => ?_
    split
    · exact Sat.pure fun _ hs => hs
    · cases m with
      | binary data =>
        exact Sat.bind (Sat.of_alive fun k hk => (Keeps.sendErr S c _ _).to_alive hk) fun _ => ih
      | text data =>
        dsimp only
        split
        · exact Sat.of_alive fun k hk => (Keeps.reject S c _ _).to_alive hk
        · exact Sat.bind (dispatch_spec S data) fun _ => ih

include S in
theorem deregister_spec (hk : k.stage.alive) :
    Sat R (Own P c I) (At I c k) (deregister c) fun _ => At I c { k with stage := .gone } := by
  unfold deregister
  have hstable : Stable R fun s => At I c k s ∧ (s.conns c).closed = true :=
    fun s s' hR hs => ⟨S.stable_at k s s' hR hs.1, S.closed s s' hR hs.2⟩
  refine Sat.bind (M := fun _ s => At I c k s ∧ (s.conns c).closed = true)
    (Sat.modify (S.stable_at k) ?_) fun _ =>
      Sat.bind (M := fun _ => At I c { k with stage := .gone })
      (Sat.guarded hstable ?_) fun left => ?_
  · rintro s - ⟨hI, hwho⟩
    have hq : Quiet s (s.dropped c) := .dropped s c
    exact ⟨⟨hI, .quiet hq⟩, ⟨S.step s _ hI (.quiet hq), (hq.identity c).trans hwho⟩,
      s.closed_dropped c⟩
  · rintro - s r s' ⟨⟨hI, rfl⟩, hcl⟩ hd
    have hs : Step P (some c) s s' := .left c r hk hcl hd
    refine ⟨⟨hI, hs⟩, S.step s s' hI hs, ?_⟩
    unfold Hub.who
    rw [Hub.deregisterLocked_conns hd, s.updConn_conns_self]
    rfl
  · cases left with
    | none => exact Keeps.pure _
    | some l =>
      exact Keeps.bind (Keeps.read S) fun _ => Keeps.bind (Keeps.readEntry S _) fun _ =>
        Keeps.sendPresence S _ _ _

include S in
/-- The whole life of a connection consists of its steps. -/
theorem serve_spec (remote : String) (messages : List Message) :
    Sat R (Own P c I) (Alive I c) (serve P c remote messages)
      fun _ s => I s ∧ (s.who c).stage = .gone := by
  unfold serve
  refine Sat.bind (Sat.of_alive fun k hk => (Keeps.logf S _ _).to_alive hk) fun _ =>
    Sat.bind (readLoop_spec S messages) fun _ => Sat.of_alive fun k hk =>
      Sat.bind (deregister_spec S hk) fun _ => Sat.mono (Keeps.logf S _ _) (fun _ hs => hs) ?_
  rintro - s ⟨hI, hwho⟩
  exact ⟨hI, congrArg Identity.stage hwho⟩

end Sections

end Dap
