import Dap.Adapter.Handshake
import Dap.Adapter.Inbound
import Dap.Hub.WritePump

/-! Messages end to end: what a client seals for a peer or a channel goes through the hub, and comes
out of the client that holds the key as the text that went in. -/
namespace Dap
open Json GoJson JsString Proc

variable {S : CipherSuite}

/-- A message as its author's client composes it: `direct` for one peer, otherwise for a channel.
The reader's key pair is that of the peer, or of the channel. -/
structure Letter (S : CipherSuite) where
  direct : Bool
  peer : JsString
  author : S.KeyPair
  reader : S.KeyPair
  nonce : CipherSuite.Nonce
  text : JsString
  id : JsString
  ts : Timestamp

namespace Letter

def ciphertext (l : Letter S) : JsString :=
  S.seal l.nonce l.text l.id l.peer l.author.priv l.reader.pub

def outgoing (l : Letter S) : Outgoing :=
  if l.direct then .direct l.peer l.id l.ciphertext l.ts else .channel l.peer l.id l.ciphertext l.ts

/-- What is sent over the socket. -/
def wire (P : Platform) (E : JsFrame.Ed25519) (priv : Bytes) (l : Letter S) : Bytes :=
  (l.outgoing.frame.signed P E priv).wire

/-- The text without a byte order mark in front, unpaired surrogates replaced. -/
def plain (l : Letter S) : String := String.ofList (Bytes.dropByteOrderMark l.text.scalars.toList)

/-! ### At the hub -/

/-- The frame that the hub makes of a letter. -/
def posted (l : Letter S) (sig : JsString) : Frame where
  op := "send"
  «to» := if l.direct then l.peer.scalars else ""
  channel := if l.direct then "" else l.peer.scalars
  id := l.id.scalars
  ts := Int64.ofInt l.ts.val
  ciphertext := l.ciphertext.scalars
  sig := sig.scalars

theorem decode_posted (l : Letter S) (sig : JsString) :
    (l.outgoing.received sig).foldlM Decoding.decodeMember {} = some ⟨l.posted sig, {}⟩ := by
  have hts : parseInt l.ts.val.repr = some (Int64.ofInt l.ts.val) := by
    obtain ⟨hlo, hhi⟩ := l.ts.2
    rw [← Int.toString_eq_repr]
    exact parseInt_toString (by omega) (by omega)
  unfold outgoing posted
  cases l.direct with
  | true =>
    simp [Outgoing.received, Outgoing.frame, dm, JsValue.jsonMembers, JsValue.json, mapMembers,
      mapStr, Decoding.decodeMember, matchField, frameFields, decodeString, decodeInt, hts]
  | false =>
    simp [Outgoing.received, Outgoing.frame, send, JsValue.jsonMembers, JsValue.json, mapMembers,
      mapStr, Decoding.decodeMember, matchField, frameFields, decodeString, decodeInt, hts]

theorem parseFrame_letter (P : Platform) (E : JsFrame.Ed25519) (priv : Bytes) (l : Letter S) :
    (parseFrame (l.wire P E priv)).map Prod.fst =
      some (l.posted (l.outgoing.frame.signFrame P E priv)) := by
  rw [wire, Outgoing.parseFrame_of_decode (l.decode_posted _)]
  rfl

/-! ### At the reader -/

theorem scalars_ne_empty {s : JsString} (h : s ≠ []) : s.scalars ≠ "" := by
  intro hempty
  have hpoints : s.codePoints = [] := by simpa [scalars] using hempty
  unfold codePoints at hpoints
  split at hpoints
  · exact h rfl
  · cases hpoints
  · split at hpoints
    · cases hpoints
    · cases hpoints

theorem ciphertext_scalars (l : Letter S) : ofString l.ciphertext.scalars = l.ciphertext := by
  unfold ciphertext CipherSuite.seal b64e
  dsimp only
  rw [scalars_ofChars, ofString, String.toList_ofList]

theorem ciphertext_ne_empty (l : Letter S) : l.ciphertext.scalars ≠ "" := by
  have hne : (l.nonce : Bytes) ++ S.encrypt (S.deriveKey (S.sharedSecret l.author.priv l.reader.pub)
      l.id) l.nonce (CipherSuite.aadOf l.id l.peer) (JsFrame.utf8 l.text) ≠ [] := by
    intro hnil
    have hlen := l.nonce.2
    rw [(List.append_eq_nil_iff.mp hnil).1] at hlen
    cases hlen
  intro hempty
  unfold ciphertext CipherSuite.seal b64e at hempty
  dsimp only at hempty
  rw [scalars_ofChars] at hempty
  exact Bytes.base64_ne_nil Bytes.base64Digit ['='] hne (String.ofList_injective hempty)

end Letter

namespace CipherSuite

theorem utf8_ofString_scalars (s : JsString) :
    JsFrame.utf8 (ofString s.scalars) = JsFrame.utf8 s := by
  rw [JsFrame.utf8, JsFrame.utf8, scalars_ofString]

theorem aadOf_scalars (id peer : JsString) :
    aadOf (ofString id.scalars) (ofString peer.scalars) = aadOf id peer := by
  have hbar : ∀ a b c : JsString, (a ++ c ++ ofString "|" ++ b).scalars =
      (a ++ c).scalars ++ String.singleton '|' ++ b.scalars := by
    intro a b c
    rw [List.append_assoc]
    exact scalars_append_char (a ++ c) '|' b
  have hprefix : ∀ c : JsString, (ofString "dap1|" ++ c).scalars =
      "dap1" ++ String.singleton '|' ++ c.scalars := by
    intro c
    have hsplit : ofString "dap1|" ++ c = ofString "dap1" ++ (encodeChar '|' ++ c) := by
      rw [← List.append_assoc]
      rfl
    rw [hsplit, scalars_append_char, scalars_ofString]
  rw [aadOf, aadOf, JsFrame.utf8, JsFrame.utf8, hbar, hbar, hprefix, hprefix, scalars_ofString,
    scalars_ofString]

variable (S)

/-- Opening takes its strings as they read in UTF-8. -/
theorem open_scalars (ct id peer : JsString) (xPriv peerXPub : Bytes) :
    S.open ct (ofString id.scalars) (ofString peer.scalars) xPriv peerXPub =
      S.open ct id peer xPriv peerXPub := by
  unfold «open» deriveKey
  rw [aadOf_scalars, utf8_ofString_scalars]

/-- The client's `open`, its keys in base64, is that of the suite. -/
structure Backs (codec : Codec) : Prop where
  opens : ∀ ct id peer xPriv peerXPub text,
    S.open (ofString ct) (ofString id) (ofString peer) (Bytes.bufferDecode (ofString xPriv))
      (Bytes.bufferDecode (ofString peerXPub)) = some text →
    codec.openMsg ct id peer xPriv peerXPub = .ok text.scalars
  keyLength : ∀ key, codec.keyLength key = (Bytes.bufferDecode (ofString key)).length

/-- The codec of a client over the suite. -/
def codec : Codec where
  toLowerCase := String.toLower
  keyLength key := (Bytes.bufferDecode (ofString key)).length
  openMsg ct id peer xPriv peerXPub :=
    (S.open (ofString ct) (ofString id) (ofString peer) (Bytes.bufferDecode (ofString xPriv))
      (Bytes.bufferDecode (ofString peerXPub))).elim (.error "invalid tag") fun text =>
        .ok text.scalars

theorem backs_codec : S.Backs S.codec := by
  constructor
  · intro ct id peer xPriv peerXPub text h
    simp only [codec]
    rw [h, Option.elim_some]
  · intro key
    simp only [codec]

end CipherSuite

/-- The client holds the private key that the letter was sealed for. -/
def Receiver.Holds (s : Receiver) (l : Letter S) : Prop :=
  if l.direct then Bytes.bufferDecode (ofString s.xpriv) = l.reader.priv
  else ∃ ch priv, s.channels.get l.peer.scalars = some ch ∧ ch.priv = some priv ∧ priv ≠ "" ∧
    Bytes.bufferDecode (ofString priv) = l.reader.priv

/-- The client has the public key of the letter's author. -/
def PeerInfo.Names (info : PeerInfo) (l : Letter S) : Prop :=
  l.author.pub ≠ [] ∧ Bytes.bufferDecode (ofString info.x25519) = l.author.pub

/-- What the client of a reader makes of a letter. -/
def Letter.event (l : Letter S) (sender : String) : MsgEvent where
  dm := l.direct
  channel := if l.direct then none else some l.peer.scalars
  sender := sender
  text := l.plain
  ts := l.ts.val

/-- The message frame that carries a letter. -/
structure Letter.CarriedBy (l : Letter S) (m : MsgFrame) : Prop where
  id : m.id = l.id.scalars
  peer : m.peer = if l.direct then some l.peer.scalars else none
  channel : m.channel = if l.direct then none else some l.peer.scalars
  ciphertext : m.ciphertext = l.ciphertext.scalars
  ts : m.ts = l.ts.val

theorem Letter.open_letter (l : Letter S) :
    S.open (ofString l.ciphertext.scalars) (ofString l.id.scalars) (ofString l.peer.scalars)
      l.reader.priv l.author.pub = some (ofString l.plain) := by
  rw [l.ciphertext_scalars, S.open_scalars, ciphertext, S.open_seal, Letter.plain, ofString,
    String.toList_ofList]

/-- The client that holds the key reads the text that was sealed. -/
theorem Receiver.decrypts {s : Receiver} {info : PeerInfo} {l : Letter S} {m : MsgFrame}
    (hcodec : S.Backs s.codec) (hs : s.Holds l) (hinfo : info.Names l) (hm : l.CarriedBy m) :
    s.decryptMsg m info = .ok (l.event m.sender) := by
  obtain ⟨hpub, hdecode⟩ := hinfo
  unfold Holds at hs
  unfold decryptMsg Letter.event
  cases hd : l.direct with
  | true =>
    rw [if_pos hd] at hs
    have hopen := hcodec.opens _ _ _ s.xpriv info.x25519 _ (by
      rw [hs, hdecode]
      exact l.open_letter)
    have hkey : ¬ (info.x25519 = "" ∨ s.codec.keyLength info.x25519 = 0) := by
      rw [hcodec.keyLength, hdecode, List.length_eq_zero_iff]
      rintro (hempty | hnil)
      · rw [hempty] at hdecode
        exact hpub hdecode.symm
      · exact hpub hnil
    rw [hm.channel, hm.peer, if_pos hd, if_pos hd, if_neg hkey, hm.ciphertext, hm.id]
    dsimp only [Option.getD_some]
    rw [hopen, scalars_ofString, hm.ts]
    rfl
  | false =>
    rw [if_neg (by simp [hd])] at hs
    obtain ⟨ch, priv, hch, hpriv, hne, hkey⟩ := hs
    have hopen := hcodec.opens _ _ _ priv info.x25519 _ (by
      rw [hkey, hdecode]
      exact l.open_letter)
    have hheld : optStr ((s.channels.get l.peer.scalars).bind ChannelKey.priv) = some priv := by
      rw [hch, Option.bind_some, hpriv, optStr, Option.filter_some]
      simp [hne]
    rw [hm.channel, if_neg (by simp [hd])]
    dsimp only
    rw [hheld, hm.ciphertext, hm.id]
    dsimp only
    rw [hopen, scalars_ofString, hm.ts]
    rfl

/-! ### Through the hub -/

section Runs

variable {P : Platform} {E : JsFrame.Ed25519} {messages : ConnID → List Message} {H : HubHistory}
  {h : Hub} {d : ConnID} {r : String} {g : Frame}

/-- What has been queued was in the queue at some time of the run. -/
theorem HubRun.queued_at (hrun : HubRun P messages H h) {q : Reply} (hq : q ∈ queuedFor d H) :
    ∃ H1 s H2, H = H1 ++ H2 ∧ HubRun P messages H1 s ∧ Linked s H2 h ∧ q ∈ (s.conns d).send := by
  obtain ⟨m, hm, hby⟩ := List.mem_filterMap.mp hq
  obtain ⟨H1, H2, rfl⟩ := List.append_of_mem hm
  have hin : q ∈ (m.2.post.conns d).send := by
    unfold queuedBy at hby
    split at hby
    · split at hby
      next hpush =>
        obtain rfl := Option.some.inj hby
        rw [hpush.2]
        exact List.mem_append_right _ (List.mem_singleton_self _)
      next => cases hby
    next => cases hby
  have hsplit : H1 ++ m :: H2 = (H1 ++ [m]) ++ H2 := by simp
  rw [hsplit] at hrun ⊢
  obtain ⟨s, hs, hl⟩ := hrun.initial
  rw [← hs.of_concat.2] at hin
  exact ⟨_, s, H2, rfl, hs, hl, hin⟩

/-- Whatever has been queued for a connection stems from a send to its agent. -/
theorem HubRun.queued_stems (hrun : HubRun P messages H h) (hg : .frame g ∈ queuedFor d H)
    (hop : g.op = "msg") : Stems P messages H (h.conns d).agentID g := by
  obtain ⟨H1, s, H2, rfl, hs, hl, hin⟩ := hrun.queued_at hg
  obtain ⟨hauth, hstems⟩ := hs.backed.queued d g hin hop
  cases H2 with
  | nil =>
    obtain rfl := hl.of_nil
    exact hstems.append _
  | cons m H2 =>
    obtain ⟨rfl, -⟩ := hl.of_cons
    obtain ⟨hend, -⟩ := hrun.speaksFor (m := m) ⟨hauth, rfl, rfl⟩
    rw [hend.2.1]
    exact hstems.append _

/-- Whatever has been queued or waits in a mailbox for an agent stems from a send to it. -/
theorem HubRun.arrived_stems (hrun : HubRun P messages H h)
    (hg : (∃ q, h.mailbox[r]? = some q ∧ g ∈ q) ∨
      g.op = "msg" ∧ ∃ d, (h.conns d).agentID = r ∧ .frame g ∈ queuedFor d H) :
    g.op = "msg" ∧ Stems P messages H r g := by
  rcases hg with ⟨q, hq, hmem⟩ | ⟨hop, d, rfl, hqueued⟩
  · exact ⟨hrun.mail_op hq hmem, hrun.backed.mail r q g hq hmem⟩
  · exact ⟨hop, hrun.queued_stems hqueued hop⟩

/-- What is in a queue has been queued. -/
theorem HubRun.send_queued (hrun : HubRun P messages H h) {q : Reply}
    (hq : q ∈ (h.conns d).send) : q ∈ queuedFor d H := by
  induction H using List.reverseRecOn generalizing h with
  | nil =>
    obtain ⟨h0, hf, -, hl⟩ := hrun.start
    obtain rfl := hl.of_nil
    rw [hf.conns d] at hq
    cases hq
  | append_singleton H m ih =>
    obtain ⟨hbefore, rfl⟩ := hrun.of_concat
    rw [queuedFor_concat]
    obtain ⟨_ | c, e⟩ := m
    · have hamb := hrun.ambient e (List.mem_append_right _ (List.mem_singleton_self _))
      exact List.mem_append_left _ (ih hbefore (hamb.send hq))
    · rw [hrun.last_act.queuedBy (fun f hf => hf.send) fun _ ht => ht] at hq
      rcases List.mem_append.mp hq with hq | hq
      · exact List.mem_append_left _ (ih hbefore hq)
      · exact List.mem_append_right _ hq

/-- Every send among the messages is a letter, written by the client of the connection that it came
in on. -/
def Composed (writes : ConnID → Letter S → Prop) (P : Platform) (E : JsFrame.Ed25519)
    (messages : ConnID → List Message) : Prop :=
  ∀ c data f raw, .text data ∈ messages c → parseFrame data = some (f, raw) →
    frameOp f raw = "send" → ∃ (l : Letter S) (priv : Bytes), writes c l ∧ l.peer ≠ [] ∧
      l.ts.val ≠ 0 ∧ data = l.wire P E priv

/-- The letter was sent on an authenticated connection, and the agent `r` is the peer, or a member
of the channel. -/
structure Letter.SentBy (P : Platform) (E : JsFrame.Ed25519) (messages : ConnID → List Message)
    (H : HubHistory) (l : Letter S) (a : SendAttempt) (r : String) : Prop where
  executed : a.Executed H
  authed : (a.key.pre.conns a.conn).authed = true
  sent : ∃ priv, .text (l.wire P E priv) ∈ messages a.conn
  reaches : if l.direct then l.peer.scalars = r
    else ∃ ch, a.route.pre.channels[l.peer.scalars]? = some ch ∧ r ∈ ch.members

theorem Stems.letter {writes : ConnID → Letter S → Prop} (hstems : Stems P messages H r g)
    (hop : g.op = "msg") (hcomposed : Composed writes P E messages) :
    ∃ (a : SendAttempt) (l : Letter S) (frame : JsFrame) (m : MsgFrame),
      l.SentBy P E messages H a r ∧ writes a.conn l ∧ m.sender = helloAgentID P a.pubkey ∧
      JsFrame.ofWire (Bytes.utf8 (marshal (Reply.frame g).json)) = some frame ∧
      frame.kind = .str (ofString "msg") ∧ frame.msg = some m ∧ m.sender = g.from ∧
      l.CarriedBy m := by
  obtain ⟨a, hexec, ⟨hsend, data, hdata, hparse⟩, hacc, hauth, hcopy⟩ := hstems
  obtain ⟨l, priv, hwrites, hpeer, hts, hwire⟩ := hcomposed _ _ _ _ hdata hparse hsend
  rw [hwire] at hdata hparse
  have hposted : a.frame = l.posted (l.outgoing.frame.signFrame P E priv) := by
    have hletter := l.parseFrame_letter P E priv
    rw [hparse] at hletter
    exact Option.some.inj hletter
  have htoInt : (Int64.ofInt l.ts.val).toInt = l.ts.val := by
    obtain ⟨hlo, hhi⟩ := l.ts.2
    exact Int64.toInt_ofInt_of_le (by norm_num; omega) (by norm_num; omega)
  have hid : g.id = l.id.scalars := by rw [hcopy.id, hposted, Letter.posted]
  have hct : g.ciphertext = l.ciphertext.scalars := by rw [hcopy.ciphertext, hposted, Letter.posted]
  have hgts : g.ts = Int64.ofInt l.ts.val := by rw [hcopy.ts, hposted, Letter.posted]
  have hne : g.id ≠ "" := hcopy.id ▸ hacc.id
  have hfrom : g.from ≠ "" := hcopy.sender ▸ agentIDFor_ne_empty P _
  have hts0 : g.ts ≠ 0 := by
    rintro hzero
    rw [hzero] at hgts
    exact hts (htoInt.symm.trans (congrArg Int64.toInt hgts.symm))
  obtain ⟨frame, hframe, hkind, hmsg⟩ :=
    ofWire_msg g hop hne hfrom (hct ▸ l.ciphertext_ne_empty) hts0
  have hnonempty := Letter.scalars_ne_empty hpeer
  have hto : a.frame.to = if l.direct then l.peer.scalars else "" := by
    rw [hposted, Letter.posted]
  have hchannel : a.frame.channel = if l.direct then "" else l.peer.scalars := by
    rw [hposted, Letter.posted]
  have haddress : (if l.direct then l.peer.scalars = r
        else ∃ ch, a.route.pre.channels[l.peer.scalars]? = some ch ∧ r ∈ ch.members) ∧
      (g.to = if l.direct then l.peer.scalars else "") ∧
      (g.channel = if l.direct then "" else l.peer.scalars) := by
    cases hd : l.direct with
    | true =>
      rw [hd, if_pos rfl] at hto
      rcases hcopy.recipient with ⟨-, hr, hgto, hgch⟩ | ⟨hempty, -⟩
      · exact ⟨hto.symm.trans hr, hgto.trans (hr.symm.trans hto), hgch⟩
      · exact absurd (hto.symm.trans hempty) hnonempty
    | false =>
      rw [hd, if_neg Bool.false_ne_true] at hto hchannel
      rcases hcopy.recipient with ⟨hne', -⟩ | ⟨-, hgto, hgch, ch, hch, -, hr⟩
      · exact absurd hto hne'
      · rw [hgch, hchannel] at hch
        exact ⟨⟨ch, hch, hr⟩, hgto, hgch.trans hchannel⟩
  obtain ⟨hreach, hgto, hgch⟩ := haddress
  refine ⟨a, l, frame, _, ⟨hexec, hauth, ⟨priv, hdata⟩, hreach⟩, hwrites, hcopy.sender, hframe,
    hkind, hmsg, rfl, hid, ?_, ?_, hct, by rw [hgts, htoInt]⟩
  · rw [hgto]
    cases l.direct <;> simp [hnonempty]
  · rw [hgch]
    cases l.direct <;> simp [hnonempty]

/-- Where the clients compose what they send, every message that the hub has queued for a
connection, or holds in the mailbox of an agent, is read by the agent's client off the wire as a
letter to the agent or to a channel it was a member of when it was routed; and a client that holds
the key of the letter and the public key of its author reads the text that was sealed, from the
agent whose key had authenticated the sending connection. -/
theorem letters_arrive {writes : ConnID → Letter S → Prop} (hrun : HubRun P messages H h)
    (hcomposed : Composed writes P E messages)
    (hg : (∃ q, h.mailbox[r]? = some q ∧ g ∈ q) ∨
      g.op = "msg" ∧ ∃ d, (h.conns d).agentID = r ∧ .frame g ∈ queuedFor d H) :
    ∃ (a : SendAttempt) (l : Letter S) (frame : JsFrame) (m : MsgFrame),
      l.SentBy P E messages H a r ∧ writes a.conn l ∧ m.sender = helloAgentID P a.pubkey ∧
      JsFrame.ofWire (Bytes.utf8 (marshal (Reply.frame g).json)) = some frame ∧
      frame.kind = .str (ofString "msg") ∧ frame.msg = some m ∧ m.sender = g.from ∧
      ∀ (s : Receiver) (info : PeerInfo), S.Backs s.codec → s.Holds l → info.Names l →
        s.decryptMsg m info = .ok (l.event m.sender) := by
  obtain ⟨hmsg, hstems⟩ := hrun.arrived_stems hg
  obtain ⟨a, l, frame, m, hsent, hwrites, hagent, hframe, hkind, hm, hsender, hcarried⟩ :=
    hstems.letter hmsg hcomposed
  refine ⟨a, l, frame, m, hsent, hwrites, hagent, hframe, hkind, hm, hsender,
    fun s info hcodec hs hinfo => ?_⟩
  exact Receiver.decrypts hcodec hs hinfo hcarried

end Runs

/-- A letter of an agent to itself. -/
def selfLetter : Letter CipherSuite.zeroTag where
  direct := true
  peer := ofString "66687aadf862bd77"
  author := ⟨[1], [1], rfl⟩
  reader := ⟨[1], [1], rfl⟩
  nonce := ⟨List.replicate 12 0, rfl⟩
  text := ofString "hi"
  id := ofString "m1"
  ts := ⟨1, by norm_num⟩

def letterMessages : List Message :=
  [wire (sampleHello 0), .text (selfLetter.wire lenientPlatform zeroSignature [])]

/-- The client of the agent, as it starts. -/
def selfClient : BridgeClient :=
  .create
    { url := "ws://hub/ws"
      agentId := "66687aadf862bd77"
      xpriv := String.ofList (Bytes.base64Std [1])
      codec := CipherSuite.zeroTag.codec
      uuid := toString } {} none 0

def selfInfo : PeerInfo where
  agentId := "66687aadf862bd77"
  pubkey := String.ofList (Bytes.base64Std (List.replicate 32 0))
  x25519 := String.ofList (Bytes.base64Std [1])
  name := none
  online := some true

theorem selfClient_holds : (Receiver.ofBridge selfClient).Holds selfLetter := by
  unfold Receiver.Holds
  rw [if_pos (show selfLetter.direct = true from rfl)]
  change Bytes.bufferDecode (ofString (String.ofList (Bytes.base64Std [1]))) = [1]
  rw [ofString, String.toList_ofList, Bytes.bufferDecode_base64Std]

theorem selfInfo_names : selfInfo.Names selfLetter := by
  refine ⟨List.cons_ne_nil _ _, ?_⟩
  change Bytes.bufferDecode (ofString (String.ofList (Bytes.base64Std [1]))) = [1]
  rw [ofString, String.toList_ofList, Bytes.bufferDecode_base64Std]

theorem letters_arrive_sample : ∃ H h g, HubRun lenientPlatform (fun _ => letterMessages) H h ∧
    ∃ (a : SendAttempt) (frame : JsFrame) (m : MsgFrame),
      selfLetter.SentBy lenientPlatform zeroSignature (fun _ => letterMessages) H a
        (h.conns 0).agentID ∧
      JsFrame.ofWire (Bytes.utf8 (marshal (Reply.frame g).json)) = some frame ∧
      frame.msg = some m ∧
      selfClient.decryptMsg m selfInfo = .ok (selfLetter.event m.sender) ∧
      selfLetter.plain = "hi" := by
  have hruns : (alone (serve lenientPlatform 0 "" letterMessages)
      (({} : Hub).openConn 0 .master "")).map (fun r =>
        (r.2.state.conns 0).send.any Reply.isMsg) = some true := by
    rw [letterMessages, Letter.wire, Outgoing.wire_eq]
    decide +kernel
  have hhello : (parseFrame (Bytes.utf8 (marshal (Reply.frame (sampleHello 0)).json))).map
      (fun x => frameOp x.1 x.2) = some "hello" := by
    decide +kernel
  have hcomposed : Composed (fun _ (l : Letter CipherSuite.zeroTag) => l = selfLetter)
      lenientPlatform zeroSignature fun _ => letterMessages := by
    intro c data f raw hdata hparse hsend
    rcases List.mem_cons.mp hdata with hfirst | hdata
    · rw [← Message.text.inj hfirst, hparse, Option.map_some, hsend] at hhello
      exact absurd (Option.some.inj hhello) (by decide)
    · have hletter := List.mem_singleton.mp hdata
      exact ⟨selfLetter, [], rfl, by decide +kernel, by decide, Message.text.inj hletter⟩
  obtain ⟨⟨_, w⟩, hw, hqueued⟩ := Option.map_eq_some_iff.mp hruns
  obtain ⟨q, hq, hmsg⟩ := List.any_eq_true.mp hqueued
  have hrun : HubRun lenientPlatform (fun _ => letterMessages) _ w.state := HubRun.single hw
  cases q with
  | enrolled secret => cases hmsg
  | frame g =>
    have hop : g.op = "msg" := of_decide_eq_true hmsg
    obtain ⟨a, l, frame, m, hsent, rfl, -, hframe, -, hm, -, hread⟩ :=
      letters_arrive hrun hcomposed (.inr ⟨hop, 0, rfl, hrun.send_queued hq⟩)
    have hdecrypt := hread (.ofBridge selfClient) selfInfo CipherSuite.zeroTag.backs_codec
      selfClient_holds selfInfo_names
    rw [Receiver.decryptMsg_ofBridge] at hdecrypt
    exact ⟨_, _, g, hrun, a, frame, m, hsent, hframe, hm, hdecrypt, by decide +kernel⟩

end Dap
