import Dap.Hub.Acts
import Dap.Hub.Confinement

/-! A frame that is answered with an error leaves the hub as it was. -/
namespace Dap
open Proc

variable {P : Platform} {c : ConnID} {data : Bytes} {α : Type}

/-- What the dispatch of a frame that is refused may do: stamp its sender's `lastSeen`, consume the
nonce of its hello, and act on its own connection. -/
structure Harmless (P : Platform) (c : ConnID) (data : Bytes) (h h' : Hub) : Prop where
  agents : ∀ id : String, h'.agents[id]? = h.agents[id]? ∨
    id = (h.conns c).agentID ∧ Stamped id h h'
  clients : h'.clients = h.clients
  channels : h'.channels = h.channels
  mailbox : h'.mailbox = h.mailbox
  mailboxDropped : h'.mailboxDropped = h.mailboxDropped
  sendIDs : h'.sendIDs = h.sendIDs
  secrets : h'.secrets = h.secrets
  channelsFile : h'.channelsFile = h.channelsFile
  secretsFile : h'.secretsFile = h.secretsFile
  nonces : h'.nonces = h.nonces ∨ ∃ f raw, parseFrame data = some (f, raw) ∧
    frameOp f raw = "hello" ∧ h'.nonces = (h.nonces.check f.pubkey f.nonce h.clock).2
  others : ∀ d, d ≠ c → h'.conns d = h.conns d
  identity : h'.who c = h.who c
  clock : h'.clock = h.clock

namespace Harmless

variable {h h' : Hub}

theorem of_sameStore (hs : SameStore h h') (hn : h'.nonces = h.nonces)
    (hd : ∀ d, d ≠ c → h'.conns d = h.conns d) (hid : h'.who c = h.who c)
    (ht : h'.clock = h.clock) : Harmless P c data h h' where
  agents id := .inl (by rw [hs.agents])
  clients := hs.clients
  channels := hs.channels
  mailbox := hs.mailbox
  mailboxDropped := hs.mailboxDropped
  sendIDs := hs.sendIDs
  secrets := hs.secrets
  channelsFile := hs.channelsFile
  secretsFile := hs.secretsFile
  nonces := .inl hn
  others := hd
  identity := hid
  clock := ht

theorem refl (h : Hub) : Harmless P c data h h :=
  of_sameStore (by constructor <;> rfl) rfl (fun _ _ => rfl) rfl rfl

theorem updConn (h : Hub) {f : Conn → Conn}
    (hf : (f (h.conns c)).identity = (h.conns c).identity) :
    Harmless P c data h (h.updConn c f) := by
  refine of_sameStore (by constructor <;> rfl) rfl (fun _ hd => h.updConn_conns_of_ne f hd) ?_ rfl
  unfold Hub.who
  rw [h.updConn_conns_self, hf]

theorem logged (h : Hub) (event : String) (kvs : List (String × String)) :
    Harmless P c data h (h.logged event kvs) :=
  of_sameStore (by constructor <;> rfl) rfl (fun _ _ => rfl) rfl rfl

theorem touched (h : Hub) : Harmless P c data h (h.touchLastSeenLocked (h.conns c).agentID) := by
  have hlook := h.getElem?_touchLastSeenLocked (h.conns c).agentID
  have hstamp : ∀ id : String,
      (h.touchLastSeenLocked (h.conns c).agentID).agents[id]? = h.agents[id]? ∨
        id = (h.conns c).agentID ∧ Stamped id h (h.touchLastSeenLocked (h.conns c).agentID) := by
    intro id
    have hid := hlook id
    by_cases heq : (h.conns c).agentID = id
    · cases he : h.agents[id]? with
      | none => exact .inl (by simpa [he] using hid)
      | some e => exact .inr ⟨heq.symm, e, h.nowMS, he, by simpa [he, heq] using hid⟩
    · exact .inl (by simpa [heq] using hid)
  rw [h.touchLastSeenLocked_frame] at hstamp ⊢
  exact ⟨hstamp, rfl, rfl, rfl, rfl, rfl, rfl, rfl, rfl, .inl rfl, fun _ _ => rfl, rfl, rfl⟩

theorem helloChecked (h : Hub) {f : Frame} {raw : Raw} (hp : parseFrame data = some (f, raw))
    (hop : frameOp f raw = "hello") : Harmless P c data h (h.checkHelloLocked P f raw).2 := by
  have hn : (h.checkHelloLocked P f raw).2.nonces = h.nonces ∨
      (h.checkHelloLocked P f raw).2.nonces = (h.nonces.check f.pubkey f.nonce h.clock).2 := by
    unfold Hub.checkHelloLocked checkHello
    dsimp only
    split
    · exact .inl rfl
    split
    · exact .inl rfl
    split
    · exact .inl rfl
    split
    next n hcheck => exact .inr (by rw [hcheck])
    next n hcheck => exact .inr (by rw [hcheck])
  refine ⟨fun _ => .inl rfl, rfl, rfl, rfl, rfl, rfl, rfl, rfl, rfl, ?_, fun _ _ => rfl, rfl, rfl⟩
  exact hn.imp_right fun hn => ⟨f, raw, hp, hop, hn⟩

theorem trans {h1 h2 h3 : Hub} (h12 : Harmless P c data h1 h2) (h23 : Harmless P c data h2 h3) :
    Harmless P c data h1 h3 where
  agents id := by
    have hid : (h2.conns c).agentID = (h1.conns c).agentID := congrArg Identity.agentID h12.identity
    rcases h23.agents id with h32 | ⟨heq, e2, t2, he2, he3⟩
    · rcases h12.agents id with h21 | ⟨heq, e1, t1, he1, he2⟩
      · exact .inl (h32.trans h21)
      · exact .inr ⟨heq, e1, t1, he1, h32.trans he2⟩
    · rcases h12.agents id with h21 | ⟨-, e1, t1, he1, he2'⟩
      · exact .inr ⟨heq.trans hid, e2, t2, h21.symm.trans he2, he3⟩
      · obtain rfl := Option.some.inj (he2.symm.trans he2')
        exact .inr ⟨heq.trans hid, e1, t2, he1, he3⟩
  clients := h23.clients.trans h12.clients
  channels := h23.channels.trans h12.channels
  mailbox := h23.mailbox.trans h12.mailbox
  mailboxDropped := h23.mailboxDropped.trans h12.mailboxDropped
  sendIDs := h23.sendIDs.trans h12.sendIDs
  secrets := h23.secrets.trans h12.secrets
  channelsFile := h23.channelsFile.trans h12.channelsFile
  secretsFile := h23.secretsFile.trans h12.secretsFile
  nonces := by
    rcases h23.nonces with h32 | ⟨f, raw, hp, hop, h32⟩
    · rw [h32]
      exact h12.nonces
    · refine .inr ⟨f, raw, hp, hop, ?_⟩
      rcases h12.nonces with h21 | ⟨f', raw', hp', -, h21⟩
      · rw [h32, h21, h12.clock]
      · obtain ⟨rfl, -⟩ : f = f' ∧ raw = raw' := by simpa using hp.symm.trans hp'
        rw [h32, h21, h12.clock, NonceCache.check_check]
  others d hd := (h23.others d hd).trans (h12.others d hd)
  identity := h23.identity.trans h12.identity
  clock := h23.clock.trans h12.clock

end Harmless

/-! ### What only the connection's own goroutine writes -/

/-- The identity and the pending error of `c` are as they were. -/
def LeavesOwn (c : ConnID) (h h' : Hub) : Prop :=
  h'.who c = h.who c ∧ (h'.conns c).errCode = (h.conns c).errCode

/-- A section that does not set the pending error of `c`. -/
def Spares (c : ConnID) (e : Section Hub Label) : Prop :=
  (e.post.conns c).errCode = (e.pre.conns c).errCode

/-- All but writes to the pending error. -/
def sparing (P : Platform) (c : ConnID) : Scope where
  writes f := ∀ k, (f k).errCode = k.errCode
  sends _ _ := True
  stores _ _ := True
  does := Task P c

theorem Spares.updConn {label : Label} {s : Hub} {pick : Bool} {d : ConnID} {f : Conn → Conn}
    (hf : ∀ k, (f k).errCode = k.errCode) : Spares c ⟨label, s, s.updConn d f, pick⟩ :=
  s.conns_updConn (φ := fun k => k.errCode = (s.conns c).errCode) (fun _ hk => (hf _).trans hk) rfl

theorem Task.spares {d : ConnID} {e : HubSection} (ht : Task P d e) : Spares c e := by
  cases ht with
  | @registered s pick =>
    have hevict : ((s.evictOther d).conns c).errCode = (s.conns c).errCode := by
      unfold Hub.evictOther
      dsimp only
      split
      next old _ =>
        have hclosed : Spares c ⟨.mu, s, s.closedAs old .evicted, pick⟩ := by
          apply Spares.updConn
          intro k
          split <;> rfl
        have hdropped : Spares c ⟨.mu, s.closedAs old .evicted,
          (s.closedAs old .evicted).dropped old, pick⟩ := .updConn fun _ => rfl
        split
        · exact hdropped.trans hclosed
        · rfl
      · rfl
    have hserving : Spares c ⟨.mu, (s.evictOther d),
      (s.evictOther d).updConn d fun k => { k with stage := .serving }, pick⟩ :=
        .updConn fun _ => rfl
    exact hserving.trans hevict
  | @touched s pick id =>
    unfold Spares
    rw [s.touchLastSeenLocked_frame]
  | joined name chanPub =>
    unfold Spares
    rw [Hub.joinLocked_frame]
  | @left s s' pick r hd =>
    have hgone : Spares c ⟨.mu, s, s.updConn d fun k => { k with stage := .gone }, pick⟩ :=
      .updConn fun _ => rfl
    unfold Spares
    rw [Hub.deregisterLocked_conns hd]
    exact hgone
  | _ => rfl

theorem Act.spares {d : ConnID} {S : Scope} {e : HubSection} (he : Act d S e)
    (hw : c = d → ∀ f, S.writes f → ∀ k, (f k).errCode = k.errCode)
    (ht : ∀ e, S.does e → Spares c e) : Spares c e := by
  refine he.keeps (φ := fun k => k.errCode = (e.pre.conns c).errCode) ?_ ?_ ?_ rfl
  · rintro k k' hk h
    rw [hk]
    exact h
  · exact fun hd f hf k h => (hw hd f hf k).trans h
  · exact fun e he h => (ht e he).trans h

/-- What another connection's goroutine does is none of `c`'s business. -/
theorem serve_leavesOwn {d : ConnID} (hd : c ≠ d) {h : Hub} (hr : Reachable P h)
    (hs : (h.conns d).stage.alive) {remote : String} {messages : List Message}
    {script : List (Beat Hub)} (hrely : Relies (Others P d) script) {w : World Hub Label}
    (hrun : serve P d remote messages { state := h, script := script } = some ((), w)) :
    ∀ e ∈ w.trace, LeavesOwn c e.pre e.post := by
  have hown := serve_spec (P := P) (surroundings_reachable P d) remote messages
  obtain ⟨-, -, t, ht, hsteps⟩ := hown _ () w hrun hrely ⟨hr, hs⟩
  have hacts : Emits (Act d ⟨fun _ => True, fun _ _ => True, fun _ _ => True, Task P d⟩)
      (serve P d remote messages) :=
    Act.serve ⟨fun _ _ => trivial, fun _ _ => trivial, fun _ _ _ => trivial, fun _ he => he⟩
      (fun _ _ => trivial) (fun _ _ => trivial) remote messages
  obtain ⟨t', ht', hspare⟩ := hacts.of_run hrun
  intro e he
  obtain ⟨-, hstep⟩ := hsteps e (by simpa [ht] using he)
  refine ⟨hstep.who_of_ne fun heq => hd (Option.some.inj heq).symm, ?_⟩
  exact (hspare e (by simpa [ht'] using he)).spares (fun heq => absurd heq hd) fun _ ht => ht.spares

/-! ### Frames that are refused -/

/-- What is kept while a frame does no harm: `T` speaks of the sections executed so far. -/
structure Refusing (P : Platform) (c : ConnID) (data : Bytes) (R : Hub → Hub → Prop)
    (T : Assertion Hub Label) : Prop where
  own : ∀ s s', R s s' → LeavesOwn c s s'
  stable : ∀ past, Stable R (T past)
  step : ∀ past e, T past e.pre → Harmless P c data e.pre e.post → T (past ++ [e]) e.post

/-- No harm has been done, `c` speaks for `k`, and its pending error satisfies `ok`. -/
def Held (T : Assertion Hub Label) (c : ConnID) (k : Identity) (ok : String → Prop) :
    Assertion Hub Label :=
  fun past s => T past s ∧ s.who c = k ∧ ok (s.conns c).errCode

/-- The pending error of `c` satisfies `ok`. -/
def Pends (c : ConnID) (ok : String → Prop) : Assertion Hub Label :=
  fun _ s => ok (s.conns c).errCode

/-- The frame has been answered without an error, or with that of an overflown mailbox. -/
def Served (code : String) : Prop := code = "" ∨ code = codeMailboxFull

/-- Either no harm has been done, or the frame has not been refused. -/
def Verdict (T : Assertion Hub Label) (c : ConnID) : Assertion Hub Label :=
  fun past s => T past s ∨ Served (s.conns c).errCode

variable {R : Hub → Hub → Prop} {T : Assertion Hub Label} {k : Identity} {ok : String → Prop}

namespace Refusing

variable (S : Refusing P c data R T)

include S in
theorem stable_held (past : List (Section Hub Label)) : Stable R (Held T c k ok past) := by
  rintro s s' hR ⟨hT, hk, hok⟩
  obtain ⟨hwho, hcode⟩ := S.own s s' hR
  exact ⟨S.stable past s s' hR hT, hwho.trans hk, hcode ▸ hok⟩

include S in
theorem stable_pends (past : List (Section Hub Label)) : Stable R (Pends c ok past) := by
  intro s s' hR hok
  unfold Pends
  rw [(S.own s s' hR).2]
  exact hok

include S in
theorem sparing {p : HubProc α} (hp : Emits (Act c (sparing P c)) p) :
    HubTriple R (Pends c ok) p fun _ => Pends c ok := by
  refine (hp R (Pends c ok) S.stable_pends ?_).mono_guarantee fun _ _ _ => trivial
  intro past e he hok
  have hsame : Spares c e := he.spares (fun _ _ hf => hf) fun _ ht => ht.spares
  unfold Pends
  rwa [hsame]

include S in
theorem forget {p : HubProc α} (hp : Emits (Act c (Dap.sparing P c)) p) :
    HubTriple R (Held T c k ok) p fun _ => Pends c ok :=
  (S.sparing hp).mono (fun _ _ hs => hs.2.2) fun _ _ _ hs => hs

include S in
/-- A section that does no harm. -/
theorem guarded {label : Label} {f : Bool → Hub → Option (α × Hub)}
    (h : ∀ pick s a s', s.who c = k → ok (s.conns c).errCode → f pick s = some (a, s') →
      Harmless P c data s s' ∧ ok (s'.conns c).errCode) :
    HubTriple R (Held T c k ok) (Proc.guarded label f) fun _ => Held T c k ok := by
  apply Triple.guarded S.stable_held
  rintro past pick s a s' ⟨hT, hk, hok⟩ hf
  obtain ⟨hharm, hok'⟩ := h pick s a s' hk hok hf
  exact ⟨trivial, S.step past _ hT hharm, hharm.identity.trans hk, hok'⟩

include S in
theorem read {label : Label} {f : Hub → α} :
    HubTriple R (Held T c k ok) (Proc.read label f) fun _ => Held T c k ok := by
  apply S.guarded
  intro pick s a s' hk hok hf
  obtain rfl : s = s' := congrArg Prod.snd (Option.some.inj hf)
  exact ⟨.refl s, hok⟩

include S in
theorem logf (event : String) (kvs : Hub → List (String × String)) :
    HubTriple R (Held T c k ok) (Dap.logf event kvs) fun _ => Held T c k ok := by
  apply S.guarded
  intro pick s a s' hk hok hf
  obtain rfl : s.logged event (kvs s) = s' := congrArg Prod.snd (Option.some.inj hf)
  exact ⟨.logged s event _, hok⟩

include S in
theorem updConn {label : Label} {f : Conn → Conn} (hid : ∀ k, (f k).identity = k.identity)
    (hcode : ∀ k, ok k.errCode → ok (f k).errCode) :
    HubTriple R (Held T c k ok) (Proc.modify label fun h => h.updConn c f)
      fun _ => Held T c k ok := by
  apply S.guarded
  intro pick s a s' hk hok hf
  obtain rfl : s.updConn c f = s' := congrArg Prod.snd (Option.some.inj hf)
  refine ⟨.updConn s (hid _), ?_⟩
  rw [Hub.updConn_conns_self]
  exact hcode _ hok

include S in
theorem ownConn : HubTriple R (Held T c k ok) (Dap.ownConn c)
    fun a past s => a.identity = k ∧ Held T c k ok past s := by
  apply Triple.read S.stable_held
  rintro past s pick ⟨hT, hk, hok⟩
  exact ⟨trivial, hk, S.step past _ hT (.refl s), hk, hok⟩

/-- Answering on the connection itself does no harm. -/
theorem sendFrame (S : Refusing P c data R T) (r : Reply) :
    HubTriple R (Held T c k ok) (Dap.sendFrame c r) fun _ => Held T c k ok := by
  have hrelease : HubTriple R (Held T c k ok) (release c r) fun _ => Held T c k ok :=
    S.updConn (fun _ => rfl) fun _ hok => hok
  unfold Dap.sendFrame
  refine Triple.bind S.read fun queued => ?_
  split
  · refine Triple.bind (S.logf _ _) fun _ => Triple.bind (S.updConn ?_ ?_) fun _ =>
      Triple.bind (S.updConn (fun _ => rfl) fun _ hok => hok) fun _ => Triple.pure fun _ _ hs => hs
    · intro k
      split <;> rfl
    · intro k hok
      split <;> exact hok
  · refine Triple.bind (S.updConn (fun _ => rfl) fun _ hok => hok) fun _ =>
      Triple.bind S.read fun closed => ?_
    split
    · exact Triple.bind hrelease fun _ => Triple.pure fun _ _ hs => hs
    · refine Triple.bind (S.guarded ?_) fun pushed => ?_
      · intro pick s a s' hk hok hf
        unfold trySend at hf
        dsimp only at hf
        split at hf
        · obtain ⟨-, rfl⟩ : true = a ∧ _ = s' := by simpa using hf
          exact ⟨.updConn s rfl, by simpa using hok⟩
        · split at hf
          · obtain ⟨-, rfl⟩ : false = a ∧ s = s' := by simpa using hf
            exact ⟨.refl s, hok⟩
          · simp at hf
      · split
        · exact Triple.pure fun _ _ hs => hs
        · exact Triple.bind hrelease fun _ => Triple.pure fun _ _ hs => hs

end Refusing

/-- No harm has been done yet, and `c` speaks for `k`. -/
abbrev Calm (T : Assertion Hub Label) (c : ConnID) (k : Identity) : Assertion Hub Label :=
  Held T c k fun _ => True

theorem Held.calm {past : List (Section Hub Label)} {s : Hub} (h : Held T c k ok past s) :
    Calm T c k past s := ⟨h.1, h.2.1, trivial⟩

namespace Refusing

variable (S : Refusing P c data R T)

include S in
theorem sendErr (code msg : String) :
    HubTriple R (Held T c k ok) (Dap.sendErr c code msg) fun _ => Calm T c k := by
  have hset : HubTriple R (Calm T c k) (Dap.sendErr c code msg) fun _ => Calm T c k := by
    unfold Dap.sendErr
    exact Triple.bind (S.updConn (fun _ => rfl) fun _ hok => hok) fun _ =>
      Triple.bind (S.logf _ _) fun _ => Triple.bind (S.sendFrame _) fun _ =>
        Triple.pure fun _ _ hs => hs
  exact hset.mono (fun _ _ hs => hs.calm) fun _ _ _ hs => hs

include S in
theorem reject (code msg : String) :
    HubTriple R (Held T c k ok) (Dap.reject c code msg) fun _ => Calm T c k := by
  have hset : HubTriple R (Calm T c k) (Dap.reject c code msg) fun _ => Calm T c k := by
    unfold Dap.reject
    refine Triple.bind (S.updConn (fun _ => rfl) fun _ hok => hok) fun _ =>
      Triple.bind (S.logf _ _) fun _ => Triple.bind (S.guarded ?_) fun pushed => ?_
    · intro pick s a s' hk hok hf
      dsimp only at hf
      split at hf
      · obtain ⟨-, rfl⟩ : true = a ∧ _ = s' := by simpa using hf
        exact ⟨.updConn s rfl, trivial⟩
      · split at hf
        · obtain ⟨-, rfl⟩ : false = a ∧ s = s' := by simpa using hf
          exact ⟨.refl s, trivial⟩
        · simp at hf
    · split
      · apply S.guarded
        intro pick s a s' hk hok hf
        split at hf
        · obtain rfl : s = s' := by simpa using hf
          exact ⟨.refl s, trivial⟩
        · simp at hf
      · exact Triple.pure fun _ _ hs => hs
  exact hset.mono (fun _ _ hs => hs.calm) fun _ _ _ hs => hs

end Refusing

/-- No error is pending when a request is accepted; no harm is done when it is not. -/
def Outcome (T : Assertion Hub Label) (c : ConnID) (k : Identity) (accepted : Prop) :
    Assertion Hub Label :=
  fun past s => (accepted → Pends c (· = "") past s) ∧ (¬ accepted → Calm T c k past s)

theorem Outcome.accept {accepted : Prop} (ha : accepted) (past : List (Section Hub Label)) (s : Hub)
    (h : Pends c (· = "") past s) : Outcome T c k accepted past s :=
  ⟨fun _ => h, fun hn => absurd ha hn⟩

theorem Outcome.refuse {accepted : Prop} (ha : ¬ accepted) (past : List (Section Hub Label))
    (s : Hub) (h : Calm T c k past s) : Outcome T c k accepted past s :=
  ⟨fun hp => absurd hp ha, fun _ => h⟩

theorem Hub.joinLocked_denied {h : Hub} {name chanPub : String}
    (hd : ¬ (h.joinLocked P c name chanPub).1.admitted) :
    (h.joinLocked P c name chanPub).2 = h := by
  rcases h.joinLocked_cases P c name chanPub with
    ⟨-, -, heq⟩ | ⟨-, -, peers, heq⟩ | ⟨ch, -, -, rejoin, peers, heq⟩ | ⟨ch, -, -, heq⟩
  · rw [heq]
  · exact absurd (by rw [heq]; trivial) hd
  · exact absurd (by rw [heq]; trivial) hd
  · rw [heq]

namespace Refusing

variable (S : Refusing P c data R T)

include S in
theorem joinChannel (name chanPub : String) :
    HubTriple R (Held T c k (· = "")) (Dap.joinChannel P c name chanPub)
      fun r => Outcome T c k (r = none) := by
  unfold Dap.joinChannel
  refine Triple.bind (M := fun r => Outcome T c k r.admitted) (Triple.atomically S.stable_held ?_)
    fun r => ?_
  · rintro past s pick ⟨hT, hk, hcode⟩
    refine ⟨trivial, fun _ => ?_, fun hd => ?_⟩
    · change ((s.joinLocked P c name chanPub).2.conns c).errCode = ""
      rw [Hub.joinLocked_frame]
      exact hcode
    · have hsame := Hub.joinLocked_denied hd
      rw [hsame]
      exact ⟨S.step past _ hT (.refl s), hk, trivial⟩
  · have hdenied : ¬ r.admitted → ∀ e : ProtoError, HubTriple R (Outcome T c k r.admitted) (do
        Dap.logf "join" fun h =>
          [("agent", (h.conns c).logAgent), ("channel", dash name), ("result", "denied")]
        return some e) fun r => Outcome T c k (r = none) := by
      intro hr e
      have hlog : HubTriple R (Calm T c k) (Dap.logf "join" fun h =>
          [("agent", (h.conns c).logAgent), ("channel", dash name), ("result", "denied")])
          fun _ => Calm T c k := S.logf _ _
      refine Triple.mono (Triple.bind hlog fun _ => Triple.pure ?_) (fun _ _ hs => hs.2 hr)
        fun _ _ _ hs => hs
      exact Outcome.refuse (by simp)
    cases r with
    | noMaster => exact hdenied (fun h => h) _
    | notAllowed => exact hdenied (fun h => h) _
    | joined created rejoin peers =>
      refine Triple.mono ?_ (fun past s hs => (hs.1 trivial : Pends c (· = "") past s))
        fun _ _ _ hs => hs
      exact Triple.bind (S.sparing (Act.read rfl)) fun _ =>
        Triple.bind (S.sparing (Act.sendPresence (fun _ _ _ => trivial) _ _ _)) fun _ =>
          Triple.bind (S.sparing (Act.logf _ _)) fun _ => Triple.pure (Outcome.accept rfl)

include S in
theorem deliverChannel (f : Frame) :
    HubTriple R (Held T c k (· = "")) (Dap.deliverChannel P c f)
      fun accepted => Outcome T c k (accepted = true) := by
  unfold Dap.deliverChannel
  refine Triple.bind S.read fun a => Triple.bind S.read fun r => ?_
  cases r with
  | error e =>
    exact Triple.bind (S.logf _ _) fun _ => Triple.bind (S.sendErr _ _) fun _ =>
      Triple.pure (Outcome.refuse (by simp))
  | ok t =>
    exact Triple.bind
      (S.forget (Emits.forM fun _ _ => Emits.bind (Act.sendFrame trivial) fun _ => Emits.pure _))
      fun _ => Triple.bind (S.sparing (Emits.forM fun _ _ =>
        Emits.bind (Act.enqueue trivial) fun _ => Emits.pure _))
        fun _ => Triple.bind (S.sparing (Act.logf _ _)) fun _ => Triple.pure (Outcome.accept rfl)

include S in
theorem deliverDM (f : Frame) :
    HubTriple R (Held T c k (· = "")) (Dap.deliverDM c f)
      fun accepted => Outcome T c k (accepted = true) := by
  have hmailed : ∀ (m : Frame) (kvs : ℕ → Hub → List (String × String)),
      HubTriple R (Pends c (· = "")) (do
        let size ← enqueue f.to m
        Dap.logf "dm" (kvs size)
        return true) fun accepted => Outcome T c k (accepted = true) := fun m kvs =>
    Triple.bind (S.sparing (Act.enqueue trivial)) fun _ => Triple.bind (S.sparing (Act.logf _ _))
      fun _ => Triple.pure (Outcome.accept rfl)
  unfold Dap.deliverDM
  refine Triple.bind S.read fun a => Triple.bind S.read fun e => ?_
  cases e with
  | none =>
    exact Triple.bind (S.logf _ _) fun _ => Triple.bind (S.sendErr _ _) fun _ =>
      Triple.pure (Outcome.refuse (by simp))
  | some e =>
    refine Triple.bind (S.forget (Act.read rfl)) fun target => ?_
    cases target with
    | none => exact hmailed _ _
    | some target =>
      refine Triple.bind (S.sparing (Act.sendFrame trivial)) fun sent => ?_
      split
      · exact Triple.bind (S.sparing (Act.logf _ _)) fun _ => Triple.pure (Outcome.accept rfl)
      · exact hmailed _ _

include S in
theorem deliver (f : Frame) :
    HubTriple R (Held T c k (· = "")) (Dap.deliver P c f)
      fun accepted => Outcome T c k (accepted = true) := by
  unfold Dap.deliver
  split
  · exact S.deliverDM f
  · exact S.deliverChannel f

end Refusing

/-- From a pending answer without an error, the handler refuses the frame or serves it. -/
abbrev Settles (R : Hub → Hub → Prop) (T : Assertion Hub Label) (c : ConnID) (k : Identity)
    (p : HubProc α) : Prop :=
  HubTriple R (Held T c k (· = "")) p fun _ => Verdict T c

namespace Settles

variable (S : Refusing P c data R T)

theorem of_calm {p : HubProc α} (h : HubTriple R (Calm T c k) p fun _ => Calm T c k) :
    Settles R T c k p :=
  h.mono (fun _ _ hs => hs.calm) fun _ _ _ hs => .inl hs.1

include S in
theorem of_sparing {p : HubProc α} (hp : Emits (Act c (sparing P c)) p) : Settles R T c k p :=
  (S.forget hp).mono (fun _ _ hs => hs) fun _ _ _ hs => .inr (.inl hs)

include S in
theorem sendErr (code msg : String) : Settles R T c k (Dap.sendErr c code msg) :=
  of_calm (S.sendErr code msg)

include S in
theorem handleWhois (f : Frame) : Settles R T c k (Dap.handleWhois c f) := by
  apply of_calm
  unfold Dap.handleWhois
  refine Triple.bind S.read fun e => ?_
  split
  · exact S.sendErr _ _
  · exact Triple.bind (S.sendFrame _) fun _ => Triple.pure fun _ _ hs => hs

include S in
theorem handlePresenceQuery (f : Frame) : Settles R T c k (Dap.handlePresenceQuery c f) :=
  of_calm (Triple.bind S.read fun _ => Triple.bind (S.sendFrame _) fun _ =>
    Triple.pure fun _ _ hs => hs)

include S in
theorem handleJoin (f : Frame) : Settles R T c k (Dap.handleJoin P c f) := by
  unfold Dap.handleJoin
  split
  · exact sendErr S _ _
  refine Triple.bind (S.joinChannel f.channel f.chanPubkey) fun r => ?_
  cases r with
  | some e =>
    have hsend : HubTriple R (Calm T c k) (Dap.sendErr c e.code e.msg) fun _ => Calm T c k :=
      S.sendErr e.code e.msg
    exact hsend.mono (fun _ _ hs => hs.2 (by simp)) fun _ _ _ hs => .inl hs.1
  | none =>
    exact (S.sparing (Emits.bind (Act.sendFrame trivial) fun _ => Emits.pure ())).mono
      (fun _ _ hs => hs.1 rfl)
      fun _ _ _ hs => .inr (.inl hs)

include S in
theorem handleSend (f : Frame) (raw : Raw) : Settles R T c k (Dap.handleSend P c f raw) := by
  unfold Dap.handleSend
  refine Triple.bind S.read fun a => ?_
  split
  · exact sendErr S _ _
  refine Triple.bind S.read fun now => ?_
  split
  · exact sendErr S _ _
  split
  · exact sendErr S _ _
  refine Triple.bind S.read fun used => ?_
  split
  · exact sendErr S _ _
  refine Triple.bind (S.deliver f) fun accepted => ?_
  cases accepted with
  | true =>
    exact (S.sparing (Emits.modify fun _ _ => .other (.latched _ _))).mono
      (fun _ _ hs => hs.1 rfl) fun _ _ _ hs => .inr (.inl hs)
  | false =>
    exact Triple.pure fun _ _ hs => .inl (hs.2 (by simp)).1

include S in
theorem handleFlush : Settles R T c k (Dap.handleFlush c) := by
  unfold Dap.handleFlush
  refine Triple.bind (S.forget (Act.read rfl)) fun a =>
    Triple.bind (S.sparing (Act.does fun _ _ => .drained _)) fun r =>
    Triple.bind
      (S.sparing (Emits.forM fun _ _ => Emits.bind (Act.sendFrame trivial) fun _ => Emits.pure _))
      fun _ => ?_
  have hend : ∀ ok : String → Prop, HubTriple R (Pends c ok) (do
      let _ ← Dap.sendFrame c (.frame (flushedFrame r.1.length))
      Dap.logf "flush" fun _ => [("agent", a.agentID), ("count", toString r.1.length),
        ("overflowed", toString r.2)]) fun _ => Pends c ok := fun ok =>
    S.sparing (Emits.bind (Act.sendFrame trivial) fun _ => Act.logf _ _)
  dsimp only
  split
  · refine Triple.bind (M := fun _ => Pends c (· = codeMailboxFull)) ?_ fun _ =>
      (hend _).mono (fun _ _ hs => hs) fun _ _ _ hs => .inr (.inr hs)
    unfold Dap.sendErr
    refine Triple.bind (Triple.modify S.stable_pends fun past s pick _ => ⟨trivial, ?_⟩) fun _ =>
      S.sparing (Emits.bind (Act.logf _ _) fun _ => Emits.bind (Act.sendFrame trivial) fun _ =>
        Emits.pure _)
    exact congrArg Conn.errCode (s.updConn_conns_self c _)
  · exact (hend _).mono (fun _ _ hs => hs) fun _ _ _ hs => .inr (.inl hs)

include S in
theorem enroll (op : EnrollOp) : Settles R T c k (Dap.enroll P c op) := by
  unfold Dap.enroll
  refine Triple.bind S.read fun a => ?_
  split
  · exact sendErr S _ _
  · exact of_sparing S (Emits.bind (Act.does fun _ _ => .drawn) fun secret =>
      Emits.bind (Act.does fun _ _ => .enrolled _ _ _) fun _ => Emits.bind (Act.logf _ _) fun _ =>
        Emits.bind (Act.sendFrame trivial) fun _ => Emits.pure _)

include S in
theorem welcome (f : Frame) : Settles R T c k (Dap.welcome P c f) := by
  unfold Dap.welcome
  refine Triple.bind S.read fun a => ?_
  split
  · exact of_calm (S.reject _ _)
  · exact of_sparing S (Emits.bind (Act.setOwn fun _ => rfl) fun _ =>
      Emits.bind (Act.register (fun _ _ _ => trivial) fun _ he => he) fun _ =>
        Emits.bind (Act.sendFrame trivial) fun _ => Emits.pure _)

include S in
theorem handleHello {f : Frame} {raw : Raw} (hp : parseFrame data = some (f, raw))
    (hop : frameOp f raw = "hello") : Settles R T c k (Dap.handleHello P c f raw) := by
  unfold Dap.handleHello
  refine Triple.bind (S.updConn ?_ ?_) fun _ => Triple.bind (S.logf _ _) fun _ =>
    Triple.bind S.read fun a => ?_
  · intro k
    unfold Conn.traced
    split <;> rfl
  · intro k hok
    unfold Conn.traced
    split <;> exact hok
  · split
    · exact sendErr S _ _
    refine Triple.bind (S.guarded ?_) fun r => ?_
    · intro pick s a s' hk hok hf
      obtain rfl : (s.checkHelloLocked P f raw).2 = s' := congrArg Prod.snd (Option.some.inj hf)
      exact ⟨.helloChecked s hp hop, hok⟩
    · cases r with
      | some e => exact of_calm (S.reject _ _)
      | none => exact welcome S f

include S in
theorem handler {f : Frame} {raw : Raw} (hp : parseFrame data = some (f, raw))
    {handle : HubProc Unit} (hh : handler P c (frameOp f raw) f raw = some handle) :
    Settles R T c k handle := by
  unfold Dap.handler at hh
  split at hh
  next hop => exact Option.some.inj hh ▸ handleHello S hp hop
  split at hh
  · exact Option.some.inj hh ▸ handleWhois S f
  split at hh
  · exact Option.some.inj hh ▸ handlePresenceQuery S f
  split at hh
  · exact Option.some.inj hh ▸ handleJoin S f
  split at hh
  · exact Option.some.inj hh ▸ handleSend S f raw
  split at hh
  · exact Option.some.inj hh ▸ handleFlush S
  split at hh
  · exact Option.some.inj hh ▸ enroll S .enroll
  split at hh
  · exact Option.some.inj hh ▸ enroll S .enrollCreate
  · simp at hh

end Settles

namespace Refusing

variable (S : Refusing P c data R T)

include S in
theorem stable_verdict (past : List (Section Hub Label)) : Stable R (Verdict T c past) := by
  rintro s s' hR (hT | hcode)
  · exact .inl (S.stable past s s' hR hT)
  · exact .inr ((S.own s s' hR).2 ▸ hcode)

include S in
theorem logOp (op id : String) (code : Conn → String) :
    HubTriple R (Verdict T c) (Dap.logOp c op id code) fun _ => Verdict T c := by
  refine Triple.modify S.stable_verdict fun past s pick hs => ⟨trivial, ?_⟩
  exact hs.imp (fun hT => S.step past _ hT (.logged s _ _)) fun hcode => hcode

include S in
theorem dispatchFrame {f : Frame} {raw : Raw} (hp : parseFrame data = some (f, raw)) :
    HubTriple R (Held T c k (· = "")) (Dap.dispatchFrame P c f raw) fun _ => Verdict T c := by
  unfold Dap.dispatchFrame
  refine Triple.bind S.ownConn fun a => Triple.assume fun ha => ?_
  split
  · exact Triple.bind (Settles.sendErr S _ _) fun _ => S.logOp _ _ _
  · refine Triple.bind (S.guarded ?_) fun _ => ?_
    · intro pick s u s' hk hok hf
      have hid : a.agentID = (s.conns c).agentID := congrArg Identity.agentID (ha.trans hk.symm)
      obtain rfl : s.touchLastSeenLocked a.agentID = s' := congrArg Prod.snd (Option.some.inj hf)
      refine ⟨hid ▸ .touched s, ?_⟩
      rw [s.touchLastSeenLocked_frame]
      exact hok
    · split
      next handle hh => exact Triple.bind (Settles.handler S hp hh) fun _ => S.logOp _ _ _
      · exact Triple.bind (Settles.sendErr S _ _) fun _ => S.logOp _ _ _

include S in
/-- However the others act, a frame that is refused has done no harm. -/
theorem dispatch : HubTriple R T (Dap.dispatch P c data) fun _ => Verdict T c := by
  have hstart : ∀ k, HubTriple R (Calm T c k) (Dap.dispatch P c data) fun _ => Verdict T c := by
    intro k
    unfold Dap.dispatch
    refine Triple.bind (M := fun _ => Held T c k (· = "")) (Triple.modify S.stable_held ?_)
      fun _ => ?_
    · rintro past s pick ⟨hT, hk, -⟩
      have hharm : Harmless P c data s (s.updConn c fun k => { k with errCode := "" }) :=
        .updConn s rfl
      refine ⟨trivial, S.step past _ hT hharm, hharm.identity.trans hk, ?_⟩
      exact congrArg Conn.errCode (s.updConn_conns_self c _)
    · split
      · exact Triple.bind (Settles.sendErr S _ _) fun _ => S.logOp _ _ _
      next f raw hp => exact S.dispatchFrame hp
  refine (Triple.choose hstart).mono ?_ fun _ _ _ hs => hs
  exact fun past s hT => ⟨s.who c, hT, rfl, trivial⟩

end Refusing

/-- Any section that the dispatch of a refused frame executes, whatever the others do in between, is
harmless; and when nobody interferes, so is the dispatch as a whole. -/
theorem rejected_changes_nothing (P : Platform) (c : ConnID) (data : Bytes) (h : Hub) :
    (∀ (script : List (Beat Hub)) (w : World Hub Label), Relies (LeavesOwn c) script →
      dispatch P c data { state := h, script := script } = some ((), w) →
      ¬ Served (w.state.conns c).errCode → ∀ e ∈ w.trace, Harmless P c data e.pre e.post) ∧
    (∀ w : World Hub Label, alone (dispatch P c data) h = some ((), w) →
      ¬ Served (w.state.conns c).errCode → Harmless P c data h w.state) := by
  constructor
  · intro script w hrely hrun herr
    have S : Refusing P c data (LeavesOwn c) fun past _ =>
        ∀ e ∈ past, Harmless P c data e.pre e.post := by
      refine ⟨fun _ _ hR => hR, fun _ _ _ _ hT => hT, fun past e hT he => ?_⟩
      intro x hx
      rcases List.mem_append.mp hx with hx | hx
      · exact hT x hx
      · rwa [List.mem_singleton.mp hx]
    have hend := (S.dispatch _ () w hrun hrely (by simp)).1
    exact hend.resolve_right herr
  · intro w hrun herr
    have S : Refusing P c data (fun _ _ => False) fun _ s => Harmless P c data h s :=
      ⟨fun _ _ hR => hR.elim, fun _ _ _ hR => hR.elim, fun _ _ hT he => hT.trans he⟩
    have hend := (S.dispatch _ () w hrun (fun _ hb => by simp at hb) (.refl h)).1
    exact hend.resolve_right herr

/-- An enrolled agent asks for a channel that does not exist. -/
theorem rejected_changes_nothing_sample :
    let h := ({} : Hub).admitted lenientPlatform 0 .agent "alice" (sampleHello 0)
    let data := Bytes.utf8 "\x7b\"op\":\"join\",\"channel\":\"room\"\x7d".toList
    ∃ w : World Hub Label, alone (dispatch lenientPlatform 0 data) h = some ((), w) ∧
      (w.state.conns 0).errCode = codeDenied ∧ Harmless lenientPlatform 0 data h w.state := by
  have hrun : (alone (dispatch lenientPlatform 0
      (Bytes.utf8 "\x7b\"op\":\"join\",\"channel\":\"room\"\x7d".toList))
      (({} : Hub).admitted lenientPlatform 0 .agent "alice" (sampleHello 0))).map
        (fun r => (r.2.state.conns 0).errCode) = some codeDenied := by decide +kernel
  obtain ⟨⟨_, w⟩, hw, hcode⟩ := Option.map_eq_some_iff.mp hrun
  refine ⟨w, hw, hcode, (rejected_changes_nothing _ 0 _ _).2 w hw ?_⟩
  rw [hcode]
  unfold Served
  decide

end Dap
