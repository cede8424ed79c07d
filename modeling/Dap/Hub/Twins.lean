import Dap.Hub.System
import Dap.Lib.Lockstep

/-! Hubs, frames and sections that are the same but for ciphertexts of one encoded length. -/
namespace Dap
open GoJson Proc

/-! ### Encoded lengths -/

/-- `len(json.Marshal(s))` of a string. -/
def encodedLength (s : String) : ℕ := (Bytes.utf8 (quote true s)).length

theorem escapeChar_ne_nil (escapeHTML : Bool) (c : Char) : escapeChar escapeHTML c ≠ [] := by
  unfold escapeChar
  split_ifs <;> simp

theorem encodedLength_eq_two {s : String} : encodedLength s = 2 ↔ s = "" := by
  constructor
  · intro h
    have hcs : s.toList = [] := by
      cases hs : s.toList with
      | nil => rfl
      | cons c cs =>
        exfalso
        obtain ⟨d, ds, hd⟩ := List.exists_cons_of_ne_nil (escapeChar_ne_nil true c)
        have hpos := Char.utf8Size_pos d
        have hquote : ('"' : Char).utf8Size = 1 := by decide
        simp only [encodedLength, quote, hs, List.flatMap_cons, hd, Bytes.length_utf8,
          Bytes.utf8Len, List.map_cons, List.map_append, List.cons_append, List.map_nil,
          List.sum_cons, List.sum_append, List.sum_nil, hquote] at h
        omega
    exact String.toList_eq_nil_iff.mp hcs
  · rintro rfl
    decide

theorem length_utf8_printMembers (q : String → List Char) (k : String) (v v' : Json String)
    (h : (Bytes.utf8 (v.print q)).length = (Bytes.utf8 (v'.print q)).length) (a b : Members) :
    (Bytes.utf8 (Json.printMembers q (a ++ (k, v) :: b))).length =
      (Bytes.utf8 (Json.printMembers q (a ++ (k, v') :: b))).length := by
  simp only [Bytes.length_utf8, Bytes.utf8Len] at h ⊢
  induction a with
  | nil =>
    cases b with
    | nil =>
      simp only [List.nil_append, Json.printMembers, List.map_append, List.map_cons,
        List.sum_append, List.sum_cons]
      omega
    | cons m b =>
      simp only [List.nil_append, Json.printMembers, List.map_append, List.map_cons,
        List.sum_append, List.sum_cons]
      omega
  | cons m a ih =>
    have htail : ∀ v : Json String, ∃ m' b', a ++ (k, v) :: b = m' :: b' := by
      intro v
      cases a with
      | nil => exact ⟨_, _, rfl⟩
      | cons x a => exact ⟨_, _, rfl⟩
    obtain ⟨m1, b1, h1⟩ := htail v
    obtain ⟨m2, b2, h2⟩ := htail v'
    rw [h1, h2] at ih
    rw [List.cons_append, List.cons_append, h1, h2]
    simp only [Json.printMembers, List.map_append, List.map_cons, List.sum_append,
      List.sum_cons]
    omega

theorem Frame.members_ciphertext (f : Frame) : ∃ a b, ∀ x,
    Frame.members { f with ciphertext := x } = a ++ strOmitEmpty "ciphertext" x ++ b := by
  refine ⟨("op", .str f.op) ::
    (intOmitEmpty "v" f.v ++ strOmitEmpty "pubkey" f.pubkey ++ strOmitEmpty "x25519" f.x25519 ++
      strOmitEmpty "name" f.name ++ strOmitEmpty "nonce" f.nonce ++ intOmitEmpty "ts" f.ts ++
      strOmitEmpty "sig" f.sig ++ strOmitEmpty "agentId" f.agentID ++ onlineMember f.online ++
      intOmitEmpty "lastSeen" f.lastSeen ++ strOmitEmpty "channel" f.channel ++
      strOmitEmpty "chanPubkey" f.chanPubkey ++ strOmitEmpty "to" f.to ++
      strOmitEmpty "from" f.from ++ strOmitEmpty "id" f.id ++ strOmitEmpty "replyTo" f.replyTo),
    intOmitEmpty "count" f.count ++ agentsMember f.agents ++ strOmitEmpty "code" f.code ++
      strOmitEmpty "msg" f.msg, fun x => ?_⟩
  simp only [Frame.members, List.append_assoc, List.cons_append]

/-- What the queue accounting sees of a frame does not depend on its ciphertext. -/
theorem Frame.length_ciphertext (f : Frame) {x : String}
    (h : encodedLength x = encodedLength f.ciphertext) :
    (Reply.frame { f with ciphertext := x }).length = (Reply.frame f).length := by
  by_cases hx : x = ""
  · have hf := encodedLength_eq_two.mp (h.symm.trans (encodedLength_eq_two.mpr hx))
    rw [hx, ← hf]
  · have hf : f.ciphertext ≠ "" := fun hf =>
      hx (encodedLength_eq_two.mp (h.trans (encodedLength_eq_two.mpr hf)))
    obtain ⟨a, b, hm⟩ := f.members_ciphertext
    have hlen := length_utf8_printMembers (quote true) "ciphertext" (.str x) (.str f.ciphertext)
      h a b
    have hmx := hm x
    have hmf : f.members = _ := hm f.ciphertext
    rw [strOmitEmpty, if_neg hx, List.append_assoc, List.singleton_append] at hmx
    rw [strOmitEmpty, if_neg hf, List.append_assoc, List.singleton_append] at hmf
    simp only [Reply.length, Reply.json, marshal, Json.print, hmx, hmf, Bytes.length_utf8,
      Bytes.utf8Len, List.map_cons, List.map_append, List.sum_cons, List.sum_append] at hlen ⊢
    omega

/-! ### Corresponding frames and hubs -/

/-- Send frames that differ in ciphertext and signature only, with ciphertexts of one encoded
length. -/
def SendTwin (f f' : Frame) : Prop :=
  ∃ x s, encodedLength x = encodedLength f.ciphertext ∧ f' = { f with ciphertext := x, sig := s }

variable (sent : Frame → Frame → Prop)

/-- Frames as the hub queues and stores them: without a ciphertext they are equal; else each is the
copy of a send frame, and these correspond. -/
inductive FrameTwin : Frame → Frame → Prop where
  | plain (f) (hf : f.ciphertext = "") : FrameTwin f f
  | channel (sender g g') (hg : SendTwin g g') (hs : sent g g') :
      FrameTwin (channelMsg sender g) (channelMsg sender g')
  | dm (sender g g') (hg : SendTwin g g') (hs : sent g g') :
      FrameTwin (dmMsg sender g) (dmMsg sender g')

inductive ReplyTwin : Reply → Reply → Prop where
  | frame {f f'} (h : FrameTwin sent f f') : ReplyTwin (.frame f) (.frame f')
  | enrolled (secret) : ReplyTwin (.enrolled secret) (.enrolled secret)

inductive LabelTwin : Label → Label → Prop where
  | same (l) : LabelTwin l l
  | enqueue (agentID) {f f'} (h : FrameTwin sent f f') :
      LabelTwin (.enqueue agentID f) (.enqueue agentID f')
  | load (c) {r r'} (h : ReplyTwin sent r r') : LabelTwin (.load c r) (.load c r')
  | reserve (c) {r r'} (h : ReplyTwin sent r r') : LabelTwin (.reserve c r) (.reserve c r')
  | release (c) {r r'} (h : ReplyTwin sent r r') : LabelTwin (.release c r) (.release c r')
  | select (c) {r r'} (h : ReplyTwin sent r r') : LabelTwin (.select c r) (.select c r')

/-- The hub with other mailboxes and other send queues. -/
abbrev Hub.swap (h : Hub) (mail : GoMap (List Frame)) (queues : ConnID → List Reply) : Hub :=
  { h with
    mailbox := mail
    conns := fun c => { h.conns c with send := queues c } }

/-- Hubs that agree on everything but what stands in mailboxes and send queues, and there the frames
correspond one by one. -/
structure HubTwin (h h' : Hub) : Prop where
  rest : h' = h.swap h'.mailbox fun c => (h'.conns c).send
  mailbox : ∀ id : String, Option.Rel (List.Forall₂ (FrameTwin sent)) h.mailbox[id]? h'.mailbox[id]?
  send : ∀ c, List.Forall₂ (ReplyTwin sent) (h.conns c).send (h'.conns c).send

variable {sent}

/-- Corresponding frames are equal but for the ciphertext, and of one length. -/
theorem FrameTwin.same {f f' : Frame} (h : FrameTwin sent f f') :
    { f' with ciphertext := f.ciphertext } = f ∧
      (Reply.frame f').length = (Reply.frame f).length := by
  cases h with
  | plain => exact ⟨rfl, rfl⟩
  | channel sender g g' hg hs =>
    obtain ⟨x, s, hx, rfl⟩ := hg
    exact ⟨rfl, Frame.length_ciphertext (channelMsg sender g) hx⟩
  | dm sender g g' hg hs =>
    obtain ⟨x, s, hx, rfl⟩ := hg
    exact ⟨rfl, Frame.length_ciphertext (dmMsg sender g) hx⟩

theorem ReplyTwin.length {r r' : Reply} (h : ReplyTwin sent r r') : r'.length = r.length := by
  cases h with
  | frame h => exact h.same.2
  | enrolled secret => rfl

theorem ReplyTwin.plain {f : Frame} (hf : f.ciphertext = "") :
    ReplyTwin sent (.frame f) (.frame f) := .frame (.plain f hf)

theorem HubTwin.cases {h h' : Hub} (ht : HubTwin sent h h') : ∃ mail queues,
    h' = h.swap mail queues ∧
      (∀ id : String, Option.Rel (List.Forall₂ (FrameTwin sent)) h.mailbox[id]? mail[id]?) ∧
      ∀ c, List.Forall₂ (ReplyTwin sent) (h.conns c).send (queues c) :=
  ⟨_, _, ht.rest, ht.mailbox, ht.send⟩

theorem HubTwin.swap {h : Hub} {mail : GoMap (List Frame)} {queues : ConnID → List Reply}
    (hm : ∀ id : String, Option.Rel (List.Forall₂ (FrameTwin sent)) h.mailbox[id]? mail[id]?)
    (hq : ∀ c, List.Forall₂ (ReplyTwin sent) (h.conns c).send (queues c)) :
    HubTwin sent h (h.swap mail queues) := ⟨rfl, hm, hq⟩

/-! ### Sections that see no frames -/

theorem Hub.swap_self (h : Hub) : h.swap h.mailbox (fun c => (h.conns c).send) = h := rfl

/-- A section that neither looks at mailboxes and send queues nor changes them. -/
def Blind {α : Type} (f : Hub → α × Hub) : Prop :=
  ∀ h mail queues, f (Hub.swap h mail queues) = ((f h).1, (f h).2.swap mail queues)

theorem Blind.twin {α : Type} {f : Hub → α × Hub} (hf : Blind f) {h h' : Hub}
    (ht : HubTwin sent h h') : HubTwin sent (f h).2 (f h').2 ∧ (f h).1 = (f h').1 := by
  obtain ⟨mail, queues, rfl, hm, hq⟩ := ht.cases
  have hself := hf h h.mailbox fun c => (h.conns c).send
  rw [h.swap_self] at hself
  have hkept : (f h).2 = (f h).2.swap h.mailbox fun c => (h.conns c).send :=
    congrArg Prod.snd hself
  have hmail : (f h).2.mailbox = h.mailbox := by
    rw [hkept]
  have hsend : ∀ c, ((f h).2.conns c).send = (h.conns c).send := by
    intro c
    rw [hkept]
  rw [hf h mail queues]
  refine ⟨HubTwin.swap ?_ fun c => ?_, rfl⟩
  · rwa [hmail]
  · rw [hsend]
    exact hq c

namespace Hub

variable (h : Hub) (mail : GoMap (List Frame)) (queues : ConnID → List Reply)

theorem swap_updConn (c : ConnID) (f : Conn → Conn)
    (hf : ∀ k q, f { k with send := q } = { f k with send := q }) :
    (h.swap mail queues).updConn c f = (h.updConn c f).swap mail queues := by
  have hconns : Function.update (h.swap mail queues).conns c (f ((h.swap mail queues).conns c)) =
      fun d => { Function.update h.conns c (f (h.conns c)) d with send := queues d } := by
    funext d
    by_cases hd : d = c
    · subst hd
      rw [Function.update_self, Function.update_self]
      exact hf _ _
    · rw [Function.update_of_ne hd, Function.update_of_ne hd]
  unfold updConn swap at *
  rw [hconns]

theorem swap_closedAs (c : ConnID) (reason : CloseReason) :
    (h.swap mail queues).closedAs c reason = (h.closedAs c reason).swap mail queues := by
  apply swap_updConn
  intro k q
  dsimp only
  split <;> rfl

theorem swap_dropped (c : ConnID) :
    (h.swap mail queues).dropped c = (h.dropped c).swap mail queues :=
  h.swap_updConn mail queues c _ fun _ _ => rfl

theorem swap_evictOther (c : ConnID) :
    (h.swap mail queues).evictOther c = (h.evictOther c).swap mail queues := by
  have hclients : (h.swap mail queues).clients = h.clients := rfl
  have hname : ((h.swap mail queues).conns c).agentID = (h.conns c).agentID := rfl
  unfold evictOther
  dsimp only
  rw [hclients, hname]
  cases h.clients[(h.conns c).agentID]? with
  | none => rfl
  | some old =>
    dsimp only
    split
    · rw [swap_closedAs, swap_dropped]
      rfl
    · rfl

end Hub

theorem blind_registerLocked (c : ConnID) : Blind (Hub.registerLocked c) := by
  intro h mail queues
  unfold Hub.registerLocked
  dsimp only
  rw [Hub.swap_evictOther]
  generalize h.evictOther c = h1
  have hserving := Hub.swap_updConn
    (Hub.upsertAgentLocked { h1 with clients := h1.clients.insert (h.conns c).agentID c } c) mail
    queues c (fun k => { k with stage := .serving }) fun _ _ => rfl
  exact congrArg (fun x : Hub =>
    ((x.pointTo (h.conns c).agentID, x.presencePeersLocked (h.conns c).agentID), x)) hserving

theorem blind_touchLastSeenLocked (id : String) :
    Blind fun h => ((), h.touchLastSeenLocked id) := by
  intro h mail queues
  dsimp only [Hub.touchLastSeenLocked, Hub.swap]
  cases h.agents[id]? <;> rfl

theorem blind_joinLocked (P : Platform) (c : ConnID) (name chanPub : String) :
    Blind (Hub.joinLocked P c name chanPub) := by
  intro h mail queues
  dsimp only [Hub.joinLocked, Hub.swap]
  cases h.channels[name]? with
  | none =>
    dsimp only
    split <;> rfl
  | some ch =>
    dsimp only
    split <;> rfl

theorem Hub.swap_deregisterLocked (h : Hub) (c : ConnID) (mail : GoMap (List Frame))
    (queues : ConnID → List Reply) : (h.swap mail queues).deregisterLocked c =
      (h.deregisterLocked c).map fun r => (r.1, r.2.swap mail queues) := by
  unfold Hub.deregisterLocked
  dsimp only
  rw [Hub.swap_updConn h mail queues c (fun k => { k with stage := .gone }) fun _ _ => rfl]
  generalize h.updConn c (fun k => { k with stage := .gone }) = h1
  dsimp only [Hub.swap]
  by_cases hc : h1.clients[(h.conns c).agentID]? ≠ some c
  · rw [if_pos hc, if_pos hc]
    rfl
  · rw [if_neg hc, if_neg hc]
    cases h1.agents[(h.conns c).agentID]? <;> rfl

/-! ### Sections that queue and store frames -/

theorem mailTwin_getD {q q' : Option (List Frame)}
    (h : Option.Rel (List.Forall₂ (FrameTwin sent)) q q') :
    List.Forall₂ (FrameTwin sent) (q.getD []) (q'.getD []) := by
  cases h with
  | none => exact .nil
  | some h => exact h

theorem mailTwin_insert {mail mail' : GoMap (List Frame)} {q q' : List Frame}
    (h : ∀ id : String, Option.Rel (List.Forall₂ (FrameTwin sent)) mail[id]? mail'[id]?)
    (hq : List.Forall₂ (FrameTwin sent) q q') (agentID id : String) :
    Option.Rel (List.Forall₂ (FrameTwin sent)) (mail.insert agentID q)[id]?
      (mail'.insert agentID q')[id]? := by
  rw [GoMap.getElem?_insert_ite, GoMap.getElem?_insert_ite]
  split
  · exact .some hq
  · exact h id

theorem mailTwin_erase {mail mail' : GoMap (List Frame)}
    (h : ∀ id : String, Option.Rel (List.Forall₂ (FrameTwin sent)) mail[id]? mail'[id]?)
    (agentID id : String) : Option.Rel (List.Forall₂ (FrameTwin sent)) (mail.erase agentID)[id]?
      (mail'.erase agentID)[id]? := by
  rw [GoMap.getElem?_erase_ite, GoMap.getElem?_erase_ite]
  split
  · exact .none
  · exact h id

namespace HubTwin

variable {h h' : Hub} {f f' : Frame} {r r' : Reply}

theorem enqueue (ht : HubTwin sent h h') (hf : FrameTwin sent f f') (agentID : String) :
    HubTwin sent (h.enqueueLocked agentID f).2 (h'.enqueueLocked agentID f').2 ∧
      (h.enqueueLocked agentID f).1 = (h'.enqueueLocked agentID f').1 := by
  obtain ⟨mail, queues, rfl, hm, hq⟩ := ht.cases
  have hall : List.Forall₂ (FrameTwin sent) (h.mailbox[agentID]?.getD [] ++ [f])
      (mail[agentID]?.getD [] ++ [f']) :=
    List.rel_append (mailTwin_getD (hm agentID)) (.cons hf .nil)
  have hlen := hall.length_eq
  unfold Hub.enqueueLocked
  dsimp only [Hub.swap]
  rw [← hlen]
  split
  · have hcut := List.forall₂_drop ((h.mailbox[agentID]?.getD [] ++ [f]).length - mailboxCap) hall
    exact ⟨⟨rfl, mailTwin_insert hm hcut agentID, hq⟩, hcut.length_eq⟩
  · exact ⟨⟨rfl, mailTwin_insert hm hall agentID, hq⟩, rfl⟩

theorem drain (ht : HubTwin sent h h') (agentID : String) :
    HubTwin sent (h.drainLocked agentID).2 (h'.drainLocked agentID).2 ∧
      List.Forall₂ (FrameTwin sent) (h.drainLocked agentID).1.1 (h'.drainLocked agentID).1.1 ∧
      (h.drainLocked agentID).1.2 = (h'.drainLocked agentID).1.2 := by
  obtain ⟨mail, queues, rfl, hm, hq⟩ := ht.cases
  exact ⟨⟨rfl, mailTwin_erase hm agentID, hq⟩, mailTwin_getD (hm agentID), rfl⟩

theorem evict (ht : HubTwin sent h h') (id : String) :
    HubTwin sent (h.adminEvictLocked id).2 (h'.adminEvictLocked id).2 := by
  obtain ⟨mail, queues, rfl, hm, hq⟩ := ht.cases
  unfold Hub.adminEvictLocked
  dsimp only [Hub.swap]
  cases h.agents[id]? with
  | none => exact ⟨rfl, hm, hq⟩
  | some e =>
    dsimp only
    by_cases hc : h.clients.contains id = true
    · simp only [if_pos hc]
      exact ⟨rfl, hm, hq⟩
    · have hm := mailTwin_erase hm id
      by_cases hs : h.secrets.contains e.name = true
      · by_cases hn : Hub.nameHeld (h.agents.erase id) e.name = true
        · simp only [if_neg hc, if_pos hs, if_pos hn]
          exact ⟨rfl, hm, hq⟩
        · simp only [if_neg hc, if_pos hs, if_neg hn]
          exact ⟨rfl, hm, hq⟩
      · simp only [if_neg hc, if_neg hs]
        exact ⟨rfl, hm, hq⟩

/-- A write to one connection that does alike with corresponding queues. -/
theorem updConn (ht : HubTwin sent h h') (c : ConnID) (f f' : Conn → Conn)
    (hrest : ∀ k q, List.Forall₂ (ReplyTwin sent) k.send q → ∃ q',
      f' { k with send := q } = { f k with send := q' } ∧
        List.Forall₂ (ReplyTwin sent) (f k).send q') :
    HubTwin sent (h.updConn c f) (h'.updConn c f') := by
  obtain ⟨mail, queues, rfl, hm, hq⟩ := ht.cases
  obtain ⟨q', heq, hq'⟩ := hrest (h.conns c) (queues c) (hq c)
  have hswap : (h.swap mail queues).updConn c f' =
      (h.updConn c f).swap mail (Function.update queues c q') := by
    have hconns : Function.update (h.swap mail queues).conns c
        (f' ((h.swap mail queues).conns c)) = fun d =>
          { Function.update h.conns c (f (h.conns c)) d with
            send := Function.update queues c q' d } := by
      funext d
      by_cases hd : d = c
      · subst hd
        rw [Function.update_self, Function.update_self, Function.update_self]
        exact heq
      · rw [Function.update_of_ne hd, Function.update_of_ne hd, Function.update_of_ne hd]
    unfold Hub.updConn Hub.swap at *
    rw [hconns]
  rw [hswap]
  refine HubTwin.swap hm fun d => ?_
  by_cases hd : d = c
  · subst hd
    rw [Hub.updConn_conns_self, Function.update_self]
    exact hq'
  · rw [h.updConn_conns_of_ne f hd, Function.update_of_ne hd]
    exact hq d

/-- A write that leaves the queue alone. -/
theorem updConn_blind (ht : HubTwin sent h h') (c : ConnID) (f : Conn → Conn)
    (hf : ∀ k q, f { k with send := q } = { f k with send := q }) :
    HubTwin sent (h.updConn c f) (h'.updConn c f) := by
  have hblind : Blind fun h => ((), Hub.updConn h c f) := fun h mail queues =>
    congrArg _ (h.swap_updConn mail queues c f hf)
  exact (hblind.twin ht).1

end HubTwin

theorem trySend_twin {h h' : Hub} {r r' : Reply} (ht : HubTwin sent h h')
    (hr : ReplyTwin sent r r') (c : ConnID) (pick : Bool) {a b : Bool} {u u' : Hub}
    (hu : trySend c r pick h = some (a, u)) (hu' : trySend c r' pick h' = some (b, u')) :
    HubTwin sent u u' ∧ a = b := by
  have hpush := ht.updConn c (fun k => { k with send := k.send ++ [r] })
    (fun k => { k with send := k.send ++ [r'] })
    fun k q hq => ⟨q ++ [r'], rfl, List.rel_append hq (.cons hr .nil)⟩
  have hlen := (ht.send c).length_eq
  have hclosed : (h'.conns c).closed = (h.conns c).closed := by
    rw [ht.rest]
  unfold trySend at hu hu'
  dsimp only at hu hu'
  rw [hclosed, ← hlen] at hu'
  split at hu
  next hroom =>
    rw [if_pos hroom] at hu'
    obtain ⟨rfl, rfl⟩ := Prod.mk.inj (Option.some.inj hu)
    obtain ⟨rfl, rfl⟩ := Prod.mk.inj (Option.some.inj hu')
    exact ⟨hpush, rfl⟩
  next hroom =>
    rw [if_neg hroom] at hu'
    split at hu
    next hc =>
      rw [if_pos hc] at hu'
      obtain ⟨rfl, rfl⟩ := Prod.mk.inj (Option.some.inj hu)
      obtain ⟨rfl, rfl⟩ := Prod.mk.inj (Option.some.inj hu')
      exact ⟨ht, rfl⟩
    next => cases hu

theorem deregisterLocked_twin {h h' u u' : Hub} {a b : Option (EntryPtr × List ConnID)}
    {c : ConnID} (ht : HubTwin sent h h') (hu : h.deregisterLocked c = some (a, u))
    (hu' : h'.deregisterLocked c = some (b, u')) : HubTwin sent u u' ∧ a = b := by
  obtain ⟨mail, queues, rfl, hm, hq⟩ := ht.cases
  have hself := h.swap_deregisterLocked c h.mailbox fun d => (h.conns d).send
  rw [h.swap_self, hu] at hself
  have hkept : u = u.swap h.mailbox fun d => (h.conns d).send :=
    congrArg Prod.snd (Option.some.inj hself)
  have hmail : u.mailbox = h.mailbox := by rw [hkept]
  have hsend : ∀ d, (u.conns d).send = (h.conns d).send := fun d => by rw [hkept]
  rw [h.swap_deregisterLocked, hu] at hu'
  obtain ⟨rfl, rfl⟩ := Prod.mk.inj (Option.some.inj hu')
  refine ⟨HubTwin.swap ?_ fun d => ?_, rfl⟩
  · rwa [hmail]
  · rw [hsend]
    exact hq d

end Dap
