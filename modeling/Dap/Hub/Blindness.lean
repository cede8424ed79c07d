import Dap.Hub.InStep
import Dap.Hub.Routing

/-! The hub is blind to ciphertexts. Two hubs that are fed the same operations in the same order,
but for ciphertexts and signatures of send frames, stay the same but for these ciphertexts. -/
namespace Dap
open Proc

variable {P : Platform} {c : ConnID}

/-! ### Operations -/

/-- What happens besides the read loops: time passes, the write pumps take frames and account for
what they have written, connections die, and the upgrade and the admin handlers act. -/
inductive Outside where
  | elapsed (ns : ℕ)
  | logged (event : String) (kvs : List (String × String))
  | opened (c : ConnID) (auth : AuthKind) (boundName : String)
  | taken (c : ConnID)
  | written (c : ConnID) (bytes : ℕ)
  | answered (c : ConnID)
  | writeFailed (c : ConnID)
  | pingFailed (c : ConnID)
  | closed (c : ConnID) (reason : CloseReason)
  | dropped (c : ConnID)
  | evicted (id : String)
  | aclSet (name : String) (allowed : List String)

def Outside.apply (h : Hub) : Outside → Hub
  | .elapsed ns => { h with clock := h.clock + ns }
  | .logged event kvs => h.logged event kvs
  | .opened c auth boundName => h.openConn c auth boundName
  | .taken c => h.updConn c fun k => { k with send := k.send.tail }
  | .written c bytes => h.updConn c fun k => { k with queued := k.queued - bytes }
  | .answered c => h.updConn c fun k => { k with rejectCh := none }
  | .writeFailed c => (h.closedAs c .writeFail).logged "write_fail"
      [("agent", (h.conns c).logAgent), ("queued", toString (h.conns c).queued)]
  | .pingFailed c => (h.closedAs c .pingTimeout).logged "ping_timeout"
      [("agent", (h.conns c).logAgent)]
  | .closed c reason => h.closedAs c reason
  | .dropped c => h.dropped c
  | .evicted id => (h.adminEvictLocked id).2
  | .aclSet name allowed => h.setACLLocked name allowed

/-- Whose turn it is, and for a read loop how its `select` falls. -/
inductive Turn where
  | loop (c : ConnID) (pick : Bool)
  | outside (op : Outside) (label : Label) (pick : Bool)

/-- The section takes the turn. -/
def Turn.Takes : Turn → Option ConnID × HubSection → Prop
  | .loop c pick, m => m.1 = some c ∧ m.2.pick = pick
  | .outside op label pick, m =>
    m.1 = none ∧ m.2.label = label ∧ m.2.pick = pick ∧ m.2.post = op.apply m.2.pre

/-- A run of a hub from `h0` on: the turns are taken one by one, and each read loop executes the
first sections of a run over the messages that arrive on its connection. -/
structure Played (P : Platform) (remote : ConnID → String) (messages : ConnID → List Message)
    (turns : List Turn) (h0 : Hub) (H : HubHistory) (h : Hub) : Prop where
  linked : Linked h0 H h
  turns : List.Forall₂ Turn.Takes turns H
  loops : ∀ c, H.own c ≠ [] → ∃ w v t, serve P c (remote c) (messages c) w = some ((), v) ∧
    v.trace = w.trace ++ t ∧ H.own c <+: t

/-- The operations are steps of the hub, if connections are opened once. -/
theorem Outside.ambient (op : Outside) (h : Hub)
    (hs : ∀ c auth boundName, op = .opened c auth boundName → (h.conns c).stage = .absent) :
    Ambient h (op.apply h) := by
  have hwrite : ∀ (c : ConnID) (f : Conn → Conn), (∀ k, (f k).identity = k.identity) →
      (∀ k, k.closed = true → (f k).closed = true) → (∀ k, (f k).send <:+ k.send) →
      Ambient h (h.updConn c f) := by
    intro c f hid hcl hsend
    refine .quiet (h.quiet_updConn c f (hid _) (hcl _)) fun d => ?_
    by_cases hd : d = c
    · subst hd
      rw [Hub.updConn_conns_self]
      exact hsend _
    · rw [h.updConn_conns_of_ne f hd]
  have hclosedAs : ∀ c reason d, ((h.closedAs c reason).conns d).send <:+ (h.conns d).send := by
    intro c reason d
    unfold Hub.closedAs
    by_cases hd : d = c
    · subst hd
      rw [Hub.updConn_conns_self]
      split <;> exact List.suffix_rfl
    · rw [h.updConn_conns_of_ne _ hd]
  cases op with
  | elapsed ns => exact .quiet (.of_conns (by constructor <;> rfl) rfl) fun _ => List.suffix_rfl
  | logged event kvs => exact .quiet (.logged h event kvs) fun _ => List.suffix_rfl
  | opened c auth boundName => exact .opened c auth boundName (hs c auth boundName rfl)
  | taken c =>
    exact hwrite c (fun k => { k with send := k.send.tail }) (fun _ => rfl) (fun _ hc => hc)
      fun _ => List.tail_suffix _
  | written c bytes =>
    exact hwrite c (fun k => { k with queued := k.queued - bytes }) (fun _ => rfl) (fun _ hc => hc)
      fun _ => List.suffix_rfl
  | answered c =>
    exact hwrite c (fun k => { k with rejectCh := none }) (fun _ => rfl) (fun _ hc => hc)
      fun _ => List.suffix_rfl
  | writeFailed c => exact .quiet ((Quiet.closedAs h c _).trans (.logged _ _ _)) (hclosedAs c _)
  | pingFailed c => exact .quiet ((Quiet.closedAs h c _).trans (.logged _ _ _)) (hclosedAs c _)
  | closed c reason => exact .quiet (.closedAs h c reason) (hclosedAs c reason)
  | dropped c =>
    exact hwrite c (fun k => { k with closed := true }) (fun _ => rfl) (fun _ _ => rfl)
      fun _ => List.suffix_rfl
  | evicted id => exact .evicted id
  | aclSet name allowed => exact .aclSet name allowed

theorem HubRun.played {messages : ConnID → List Message} {H : HubHistory} {h : Hub}
    (hrun : HubRun P messages H h) {turns : List Turn} (ht : List.Forall₂ Turn.Takes turns H) :
    ∃ remote h0, h0.Fresh ∧ Played P remote messages turns h0 H h := by
  obtain ⟨h0, hf, -, hl⟩ := hrun.start
  have hloop : ∀ c, ∃ remote, H.own c ≠ [] → ∃ w v t,
      serve P c remote (messages c) w = some ((), v) ∧ v.trace = w.trace ++ t ∧ H.own c <+: t := by
    intro c
    by_cases hc : H.own c = []
    · exact ⟨"", fun h => absurd hc h⟩
    · obtain ⟨s, auth, boundName, remote, script, w, -, -, -, hserve, hpre⟩ := hrun.follows c hc
      exact ⟨remote, fun _ => ⟨_, w, w.trace, hserve, rfl, hpre⟩⟩
  choose remote hloop using hloop
  exact ⟨remote, h0, hf, hl, ht, hloop⟩

/-! ### Twin messages -/

/-- Messages that are the same, or send frames that differ only in ciphertext and signature, with
encodings of one length and the same outcome of the verification under the keys in question. -/
inductive MessageTwin (P : Platform) (keys : String → Prop) : Message → Message → Prop where
  | same (m) : MessageTwin P keys m m
  | sends {data data' : Bytes} {f f' : Frame} {raw raw' : Raw} (hlen : data'.length = data.length)
      (hp : parseFrame data = some (f, raw)) (hp' : parseFrame data' = some (f', raw'))
      (hop : frameOp f raw = "send") (hop' : frameOp f' raw' = "send") (hf : SendTwin f f')
      (hsig : ∀ pub, keys pub → verifySignature P f raw pub = verifySignature P f' raw' pub) :
      MessageTwin P keys (.text data) (.text data')

/-- The messages hold these send frames. -/
def Carries (m m' : Message) (f f' : Frame) : Prop :=
  ∃ data data' raw raw', m = .text data ∧ m' = .text data' ∧
    parseFrame data = some (f, raw) ∧ parseFrame data' = some (f', raw') ∧
    frameOp f raw = "send" ∧ frameOp f' raw' = "send"

/-- Send frames that arrive on one connection in one place. -/
def Counterparts (messages messages' : ConnID → List Message) (f f' : Frame) : Prop :=
  ∃ c, ∃ m ∈ (messages c).zip (messages' c), Carries m.1 m.2 f f'

/-- The keys that the connection has when its read loop acts. -/
def Holds (H : HubHistory) (c : ConnID) (pub : String) : Prop :=
  ∃ e, (some c, e) ∈ H ∧ (e.pre.conns c).pubkey = pub

/-! ### Read loops over twin messages -/

namespace Twins

variable {sent : Frame → Frame → Prop} {keys : String → Prop}

/-- One message and its twin. -/
theorem dispatch {data data' : Bytes} (hm : MessageTwin P keys (.text data) (.text data'))
    (hs : ∀ f f', Carries (.text data) (.text data') f f' → sent f f') :
    (twins sent keys c).Agree (Dap.dispatch P c data) (Dap.dispatch P c data')
      fun _ _ => True := by
  unfold Dap.dispatch
  refine .seq (setOwn fun _ _ => rfl) fun _ _ => ?_
  cases hm with
  | same =>
    cases hp : parseFrame data with
    | none => exact .seq (sendErr _ _) fun _ _ => logOp _ _ fun _ _ => rfl
    | some parsed =>
      obtain ⟨f, raw⟩ := parsed
      refine dispatchFrame rfl rfl ?_
      cases hh : Dap.handler P c (frameOp f raw) f raw with
      | none => exact .none
      | some handle =>
        refine .some (handler_same (fun hop => hs f f ?_) hh)
        exact ⟨data, data, raw, raw, rfl, rfl, hp, hp, hop, hop⟩
  | @sends _ _ f f' raw raw' hlen hp hp' hop hop' hf hsig =>
    have hsent : sent f f' := hs f f' ⟨data, data', raw, raw', rfl, rfl, hp, hp', hop, hop'⟩
    have hid : f'.id = f.id := by
      obtain ⟨x, s, -, rfl⟩ := hf
      rfl
    rw [hp, hp']
    refine dispatchFrame (hop'.trans hop.symm) hid ?_
    rw [hop]
    exact .some (handleSend raw raw' hf hsent hsig)

theorem readLoop {l l' : List Message} (hm : List.Forall₂ (MessageTwin P keys) l l')
    (hs : ∀ m ∈ l.zip l', ∀ f f', Carries m.1 m.2 f f' → sent f f') :
    (twins sent keys c).Agree (Dap.readLoop P c l) (Dap.readLoop P c l') fun _ _ => True := by
  induction hm with
  | nil => exact .pure trivial
  | @cons m m' l l' hm _ ih =>
    have hrest := ih fun m hm => hs m (by simp [hm])
    have hfirst := hs (m, m') (by simp)
    cases m with
    | binary data =>
      cases hm with
      | same =>
        unfold Dap.readLoop
        refine .bind (read (.same _) fun _ _ _ => rfl) ?_
        rintro closed _ rfl
        split
        · exact .pure trivial
        · exact .seq (sendErr _ _) fun _ _ => hrest
    | text data =>
      cases m' with
      | binary data' => cases hm
      | text data' =>
        have hlen : data'.length = data.length := by
          cases hm with
          | same => rfl
          | sends hlen => exact hlen
        unfold Dap.readLoop
        refine .bind (read (.same _) fun _ _ _ => rfl) ?_
        rintro closed _ rfl
        dsimp only
        rw [hlen]
        split
        · exact .pure trivial
        split
        · exact reject _ _
        · exact .seq (dispatch hm hfirst) fun _ _ => hrest

theorem serve (remote : String) {l l' : List Message}
    (hm : List.Forall₂ (MessageTwin P keys) l l')
    (hs : ∀ m ∈ l.zip l', ∀ f f', Carries m.1 m.2 f f' → sent f f') :
    (twins sent keys c).Agree (Dap.serve P c remote l) (Dap.serve P c remote l')
      fun _ _ => True := by
  unfold Dap.serve
  refine .seq (logf _ fun _ _ _ => rfl) fun _ _ => ?_
  refine .seq (readLoop hm hs) fun _ _ => ?_
  exact .seq deregister fun _ _ => logf _ fun _ _ _ => rfl

end Twins

/-! ### Whole runs -/

variable {sent : Frame → Frame → Prop}

theorem Outside.twin (op : Outside) {h h' : Hub} (ht : HubTwin sent h h') :
    HubTwin sent (op.apply h) (op.apply h') := by
  have hlogged : ∀ {s s' : Hub} (event : String) (kvs : List (String × String)),
      HubTwin sent s s' → HubTwin sent (s.logged event kvs) (s'.logged event kvs) := by
    intro s s' event kvs hs
    obtain ⟨mail, queues, rfl, hm, hq⟩ := hs.cases
    exact ⟨rfl, hm, hq⟩
  have hclosedAs : ∀ c reason, HubTwin sent (h.closedAs c reason) (h'.closedAs c reason) := by
    intro c reason
    refine ht.updConn_blind c _ fun k q => ?_
    dsimp only
    split <;> rfl
  have hconn : ∀ c, h'.conns c = { h.conns c with send := (h'.conns c).send } := fun c => by
    rw [ht.rest]
  cases op with
  | elapsed ns =>
    obtain ⟨mail, queues, rfl, hm, hq⟩ := ht.cases
    exact ⟨rfl, hm, hq⟩
  | logged event kvs => exact hlogged event kvs ht
  | opened c auth boundName =>
    let k0 : Conn := { auth := auth, boundName := boundName, stage := .reading }
    exact ht.updConn c (fun _ => k0) (fun _ => k0) fun k q hq => ⟨[], rfl, .nil⟩
  | taken c =>
    have htail : ∀ {q q' : List Reply}, List.Forall₂ (ReplyTwin sent) q q' →
        List.Forall₂ (ReplyTwin sent) q.tail q'.tail := by
      rintro _ _ (_ | ⟨_, hq⟩)
      · exact .nil
      · exact hq
    exact ht.updConn c (fun k => { k with send := k.send.tail })
      (fun k => { k with send := k.send.tail }) fun k q hq => ⟨q.tail, rfl, htail hq⟩
  | written c bytes =>
    exact ht.updConn_blind c (fun k => { k with queued := k.queued - bytes }) fun _ _ => rfl
  | answered c => exact ht.updConn_blind c (fun k => { k with rejectCh := none }) fun _ _ => rfl
  | writeFailed c =>
    change HubTwin sent (Hub.logged _ _ _) (Hub.logged _ _ _)
    rw [hconn c]
    exact hlogged _ _ (hclosedAs c _)
  | pingFailed c =>
    change HubTwin sent (Hub.logged _ _ _) (Hub.logged _ _ _)
    rw [hconn c]
    exact hlogged _ _ (hclosedAs c _)
  | closed c reason => exact hclosedAs c reason
  | dropped c => exact ht.updConn_blind c (fun k => { k with closed := true }) fun _ _ => rfl
  | evicted id => exact ht.evict id
  | aclSet name allowed =>
    obtain ⟨mail, queues, rfl, hm, hq⟩ := ht.cases
    exact ⟨rfl, hm, hq⟩

theorem Turn.takes_both {turns : List Turn} {H H' : HubHistory}
    (h : List.Forall₂ Turn.Takes turns H) (h' : List.Forall₂ Turn.Takes turns H') :
    List.Forall₂ (fun m m' => ∃ turn : Turn, turn.Takes m ∧ turn.Takes m') H H' := by
  induction h generalizing H' with
  | nil =>
    cases h'
    exact .nil
  | cons hm _ ih =>
    cases h' with
    | cons hm' hrest => exact .cons ⟨_, hm, hm'⟩ (ih hrest)

theorem Hub.Fresh.twin {h : Hub} (hf : h.Fresh) : HubTwin sent h h := by
  refine ⟨rfl, fun id => ?_, fun c => ?_⟩
  · rw [hf.mailbox]
    simp
  · rw [hf.conns c]
    exact .nil

/-- Two hubs start alike and are fed the same operations in the same order, but for ciphertexts and
signatures of send frames. Then each section of one run corresponds to a section of the other, with
the same routing and the same answers, and the hubs differ at every moment in nothing but the
ciphertexts of queued and stored frames, each of which is that of the frame its sender sent. -/
theorem ciphertext_blind {remote : ConnID → String} {messages messages' : ConnID → List Message}
    {turns : List Turn} {h0 h h' : Hub} {H H' : HubHistory} (hf : h0.Fresh)
    (hrun : Played P remote messages turns h0 H h)
    (hrun' : Played P remote messages' turns h0 H' h')
    (hfed : ∀ c, List.Forall₂ (MessageTwin P (Holds H c)) (messages c) (messages' c)) :
    List.Forall₂ (fun m m' => m.1 = m'.1 ∧ Alike (HubTwin (Counterparts messages messages'))
      (LabelTwin (Counterparts messages messages')) m.2 m'.2) H H' ∧
    HubTwin (Counterparts messages messages') h h' := by
  have hboth := Turn.takes_both hrun.turns hrun'.turns
  have hturns : List.Forall₂ (fun m m' => m.1 = m'.1 ∧ m.2.pick = m'.2.pick) H H' := by
    refine hboth.imp ?_
    rintro m m' ⟨turn, hm, hm'⟩
    cases turn with
    | loop c pick => exact ⟨hm.1.trans hm'.1.symm, hm.2.trans hm'.2.symm⟩
    | outside op label pick => exact ⟨hm.1.trans hm'.1.symm, hm.2.2.1.trans hm'.2.2.1.symm⟩
  refine alike_of_inStep (B := fun c s s' => HubTwin (Counterparts messages messages') s s' ∧
    Holds H c (s.conns c).pubkey) hrun.linked hrun'.linked hf.twin hturns ?_ ?_ ?_
  · exact fun c e he s' ht => ⟨ht, e, he, rfl⟩
  · refine hboth.imp ?_
    rintro m m' ⟨turn, hm, hm'⟩ hnone ht
    cases turn with
    | loop c pick =>
      rw [hm.1] at hnone
      cases hnone
    | outside op label pick =>
      obtain ⟨-, hl, -, hpost⟩ := hm
      obtain ⟨-, hl', -, hpost'⟩ := hm'
      rw [hl, hl', hpost, hpost']
      exact ⟨.same _, op.twin ht⟩
  · intro c
    have hlen := own_length (hturns.imp fun m m' hm => hm.1) c
    by_cases hown : H.own c = []
    · have hown' : H'.own c = [] := by
        rw [hown, List.length_nil] at hlen
        exact List.eq_nil_of_length_eq_zero hlen.symm
      rw [hown, hown']
      exact ⟨[], [], True, List.prefix_rfl, List.prefix_rfl, trivial⟩
    · have hown' : H'.own c ≠ [] := by
        intro hnil
        rw [hnil, List.length_nil] at hlen
        exact hown (List.eq_nil_of_length_eq_zero hlen)
      obtain ⟨w, v, t, hserve, ht, hpre⟩ := hrun.loops c hown
      obtain ⟨w', v', t', hserve', ht', hpre'⟩ := hrun'.loops c hown'
      have hagree : (twins (Counterparts messages messages') (Holds H c) c).Agree
          (serve P c (remote c) (messages c)) (serve P c (remote c) (messages' c))
          fun _ _ => True :=
        Twins.serve (remote c) (hfed c) fun m hm f f' hc => ⟨c, m, hm, hc⟩
      obtain ⟨u, u', hu, hu', hstep⟩ := hagree w () v w' () v' hserve hserve'
      rw [ht, List.append_cancel_left_eq] at hu
      rw [ht', List.append_cancel_left_eq] at hu'
      exact ⟨t, t', True, hpre, hpre', hu ▸ hu' ▸ hstep⟩

/-- The message an agent sends to itself, with another ciphertext. -/
def otherDM : Frame := { selfDM with ciphertext := "BBBB", sig := "BBBB" }

/-- Where everything verifies, the outcome depends on the key alone. -/
theorem lenient_outcome {f f' : Frame} (raw raw' : Raw) (pub : String) (hs : f.sig ≠ "")
    (hs' : f'.sig ≠ "") (hd : (Bytes.base64Decode f.sig).isSome)
    (hd' : (Bytes.base64Decode f'.sig).isSome) :
    verifySignature lenientPlatform f raw pub = verifySignature lenientPlatform f' raw' pub := by
  obtain ⟨sig, hsig⟩ := Option.isSome_iff_exists.mp hd
  obtain ⟨sig', hsig'⟩ := Option.isSome_iff_exists.mp hd'
  unfold verifySignature signedPayloadFor
  rw [if_neg hs, if_neg hs', hsig, hsig']
  cases Bytes.base64Decode pub <;> rfl

theorem wire_twin (keys : String → Prop) :
    MessageTwin lenientPlatform keys (wire selfDM) (wire otherDM) := by
  have hparse : (parseFrame (Bytes.utf8 (GoJson.marshal (Reply.frame selfDM).json))).map
      Prod.fst = some selfDM := by decide +kernel
  have hparse' : (parseFrame (Bytes.utf8 (GoJson.marshal (Reply.frame otherDM).json))).map
      Prod.fst = some otherDM := by decide +kernel
  obtain ⟨⟨f, raw⟩, hp, hf⟩ := Option.map_eq_some_iff.mp hparse
  obtain ⟨⟨f', raw'⟩, hp', hf'⟩ := Option.map_eq_some_iff.mp hparse'
  obtain rfl : f = selfDM := hf
  obtain rfl : f' = otherDM := hf'
  have hop : ∀ raw, frameOp selfDM raw = "send" := fun _ => if_pos (by decide)
  have hop' : ∀ raw, frameOp otherDM raw = "send" := fun _ => if_pos (by decide)
  refine .sends (by decide +kernel) hp hp' (hop raw) (hop' raw') ?_ fun pub _ => ?_
  · exact ⟨"BBBB", "BBBB", by decide +kernel, rfl⟩
  · exact lenient_outcome raw raw' pub (by decide) (by decide) (by decide +kernel)
      (by decide +kernel)

/-- The turns of a run in which a first connection is opened and served alone. -/
def soloTurns (picks : List Bool) : List Turn :=
  .outside (.opened 0 .master "") .config true :: picks.map (.loop 0)

theorem Played.single (messages : ConnID → List Message) {w : World Hub Label}
    (hrun : alone (serve P 0 "" (messages 0)) (({} : Hub).openConn 0 .master "") = some ((), w)) :
    Played P (fun _ => "") messages (soloTurns (w.trace.map Section.pick)) {}
      ((none, ⟨.config, {}, ({} : Hub).openConn 0 .master "", true⟩) :: History.of 0 w.trace)
      w.state := by
  have hserve : Emits (Act 0 (everything P 0)) (serve P 0 "" (messages 0)) :=
    Act.serve (serves_everything P 0) (fun _ _ => trivial) (fun _ _ => trivial) _ _
  have hl := (linked_alone hserve hrun (0 : ConnID)).1
  refine ⟨.cons (e := ⟨.config, {}, ({} : Hub).openConn 0 .master "", true⟩) hl, ?_, ?_⟩
  · refine .cons ⟨rfl, rfl, rfl, rfl⟩ ?_
    unfold History.of
    rw [List.map_map, List.forall₂_map_left_iff, List.forall₂_map_right_iff]
    exact List.forall₂_same.mpr fun e _ => ⟨rfl, rfl⟩
  · intro c hc
    rw [History.own_cons_of_ne (by simp)] at hc ⊢
    by_cases hc0 : c = 0
    · subst hc0
      rw [History.own_of_self]
      exact ⟨_, w, w.trace, hrun, rfl, List.prefix_rfl⟩
    · exact absurd (History.own_of_of_ne (Ne.symm hc0) _) hc

/-- Every connection says hello and sends the message. -/
def talk (dm : Frame) : ConnID → List Message := fun _ => [wire (sampleHello 0), wire dm]

theorem ciphertext_blind_sample : ∃ (H H' : HubHistory) (h h' : Hub),
    (List.Forall₂ (fun m m' => m.1 = m'.1 ∧
      Alike (HubTwin (Counterparts (talk selfDM) (talk otherDM)))
        (LabelTwin (Counterparts (talk selfDM) (talk otherDM))) m.2 m'.2) H H' ∧
      HubTwin (Counterparts (talk selfDM) (talk otherDM)) h h') ∧
    .frame (dmMsg selfDM.to selfDM) ∈ (h.conns 0).send ∧
    .frame (dmMsg selfDM.to otherDM) ∈ (h'.conns 0).send := by
  have hruns : ((alone (serve lenientPlatform 0 "" (talk selfDM 0))
      (({} : Hub).openConn 0 .master "")).bind fun r =>
      (alone (serve lenientPlatform 0 "" (talk otherDM 0))
        (({} : Hub).openConn 0 .master "")).map fun r' =>
        decide (r'.2.trace.map Section.pick = r.2.trace.map Section.pick ∧
          .frame (dmMsg selfDM.to selfDM) ∈ (r.2.state.conns 0).send ∧
          .frame (dmMsg selfDM.to otherDM) ∈ (r'.2.state.conns 0).send)) = some true := by
    decide +kernel
  obtain ⟨⟨_, w⟩, hw, hrest⟩ := Option.bind_eq_some_iff.mp hruns
  obtain ⟨⟨_, w'⟩, hw', hsame⟩ := Option.map_eq_some_iff.mp hrest
  obtain ⟨hpicks, hmem, hmem'⟩ := of_decide_eq_true hsame
  have hrun := Played.single (talk selfDM) hw
  have hrun' := Played.single (talk otherDM) hw'
  dsimp only at hpicks
  rw [hpicks] at hrun'
  exact ⟨_, _, _, _, ciphertext_blind .empty hrun hrun' fun c =>
    .cons (.same _) (.cons (wire_twin _) .nil), hmem, hmem'⟩

end Dap
