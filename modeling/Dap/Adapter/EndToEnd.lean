import Dap.Adapter.Letters
import Dap.Adapter.Operations
import Dap.Hub.Directory

/-! End to end: a client that asked the hub who the author of a message is reads the text that the
author sealed (`onAgentInfo`, `decryptMsg` of `adapters/mcp-bridge/src/client.ts`), and the key of a
channel that it invites to (`parseChankeyInvite` of `channels.ts`). -/
namespace Dap
open Json GoJson JsString Proc

/-- What `onAgentInfo` takes of a frame. -/
def JsFrame.peerInfo (frame : JsFrame) : PeerInfo where
  agentId := frame.text "agentId"
  pubkey := frame.text "pubkey"
  x25519 :=
    match frame.get "x25519" with
    | .str s => s.scalars
    | _ => ""
  name :=
    match frame.get "name" with
    | .str s => some s.scalars
    | _ => none
  online :=
    match frame.get "online" with
    | .bool b => some b
    | _ => none

/-- An answer to a whois is read by the clients as what it says. -/
theorem ofWire_agentInfo (g : Frame) (hop : g.op = "agent_info") (hid : g.agentID ≠ "") :
    ∃ frame, JsFrame.ofWire (Bytes.utf8 (marshal (Reply.frame g).json)) = some frame ∧
      frame.kind = .str (ofString "agent_info") ∧ frame.peerInfo.agentId = g.agentID ∧
      (g.pubkey ≠ "" → frame.peerInfo.pubkey = g.pubkey) ∧ frame.peerInfo.x25519 = g.x25519 := by
  obtain ⟨frame, hframe, hget⟩ := ofWire_frame g
  refine ⟨frame, hframe, ?_, text_text hget "agentId" g.agentID (by simp [Frame.fields]) hid,
    text_text hget "pubkey" g.pubkey (by simp [Frame.fields]), ?_⟩
  · have hkind : frame.get "op" = .str (ofString "agent_info") := by
      rw [hget ("op", [("op", .str g.op)]) (by simp [Frame.fields]), hop]
      rfl
    rw [JsFrame.kind, hkind]
  · have hmem : ("x25519", strOmitEmpty "x25519" g.x25519) ∈ g.fields := by simp [Frame.fields]
    by_cases hx : g.x25519 = ""
    · have hnone : frame.get "x25519" = .undefined := by
        rw [hget _ hmem]
        simp [strOmitEmpty, hx]
      rw [JsFrame.peerInfo, hnone, hx]
    · rw [JsFrame.peerInfo, get_text hget "x25519" g.x25519 hmem hx]
      exact scalars_ofString g.x25519

section Runs

variable {P : Platform} {E : JsFrame.Ed25519} {messages : ConnID → List Message} {H : HubHistory}
  {h : Hub} {c d : ConnID} {r : String} {g : Frame} {S : CipherSuite}

/-- Whatever has ever been queued and is told as the registry showed it is the truth. -/
theorem HubRun.queued_vouched (hrun : HubRun P messages H h) (hg : .frame g ∈ queuedFor d H)
    (hw : g.whole) {t : String × Card} (ht : t ∈ g.cards) : Vouched P messages H t.1 t.2 := by
  obtain ⟨H1, s, H2, rfl, hs, -, hin⟩ := hrun.queued_at hg
  exact (hs.listed.told d g hin hw t ht).append H2

/-- The clients behind the connections: each says hello with its own keys and seals what it `writes`
with its own key pair, and two with one agent id have one key. -/
structure Clients (S : CipherSuite) (P : Platform) (E : JsFrame.Ed25519)
    (messages : ConnID → List Message) where
  keys : ConnID → AgentKeys
  pair : ConnID → S.KeyPair
  writes : ConnID → Letter S → Prop
  xpub : ∀ c, (pair c).pub = (keys c).xpub
  nonempty : ∀ c, (keys c).xpub ≠ []
  hellos : ∀ c data f raw, .text data ∈ messages c → parseFrame data = some (f, raw) →
    frameOp f raw = "hello" → ∃ name nonce ts priv,
      data = ((sendHello (keys c) name nonce ts).signed P E priv).wire
  author : ∀ c l, writes c l → l.author = pair c
  sends : Composed writes P E messages
  distinct : ∀ c d, agentIdOf P (keys c).pub = agentIdOf P (keys d).pub →
    (keys c).xpub = (keys d).xpub

/-- Whatever hello came in on a connection is the one of its client. -/
theorem Clients.said (cl : Clients S P E messages) {f : Frame} {past : List HubSection}
    (hf : Said P c (messages c) past f) :
    f.pubkey = String.ofList (Bytes.base64Std (cl.keys c).pub) ∧
      f.x25519 = String.ofList (Bytes.base64Std (cl.keys c).xpub) := by
  obtain ⟨data, raw, hdata, hparse, hop, -⟩ := hf.accepted
  obtain ⟨name, nonce, ts, priv, hwire⟩ := cl.hellos c data f raw hdata hparse hop
  have hgreet := @Outgoing.parseFrame_of_decode P E _ priv _
    (decode_greeting (cl.keys c) name nonce ts _)
  rw [hwire] at hparse
  have hsame : f = greeting (cl.keys c) name nonce ts _ :=
    congrArg Prod.fst (Option.some.inj (hparse.symm.trans hgreet))
  rw [hsame]
  exact ⟨rfl, rfl⟩

/-- The key that an executed send was checked with is that of the client. -/
theorem Clients.pubkey (cl : Clients S P E messages) (hrun : HubRun P messages H h)
    {a : SendAttempt} (ha : a.Executed H) (hauth : (a.key.pre.conns a.conn).authed = true) :
    a.pubkey = String.ofList (Bytes.base64Std (cl.keys a.conn).pub) := by
  obtain ⟨H1, H2, t, rfl, hown⟩ := ha
  have hmem : (some a.conn, a.key) ∈ H1 := by
    apply History.mem_own.mp
    rw [hown]
    simp
  obtain ⟨K1, K2, rfl⟩ := List.append_of_mem hmem
  rw [List.append_assoc, List.cons_append] at hrun
  obtain ⟨f, hsaid, -, hcard⟩ := hrun.of_append.listed.said a.conn hauth
  rw [← (cl.said hsaid).1]
  exact congrArg Card.pubkey hcard

theorem ofString_helloAgentID (P : Platform) (pub : Bytes) :
    ofString (helloAgentID P (String.ofList (Bytes.base64Std pub))) = agentIdOf P pub := by
  rw [helloAgentID, Bytes.base64Decode_base64Std, Option.getD_some, agentIDFor, agentIdOf, ofString,
    String.toList_ofList]

/-- Where everybody uses an adapter, in every run of the hub: what a client reads off the wire as a
message, and as the hub's answer to a whois for the sender of that message, are a letter and the key
of its author; with them, a client that holds the key of the letter reads the text that its author
sealed. -/
theorem letters_read (cl : Clients S P E messages) (hrun : HubRun P messages H h)
    (hg : (∃ q, h.mailbox[r]? = some q ∧ g ∈ q) ∨
      g.op = "msg" ∧ ∃ d, (h.conns d).agentID = r ∧ .frame g ∈ queuedFor d H)
    {g' : Frame} (hanswer : .frame g' ∈ queuedFor d H) (hop : g'.op = "agent_info")
    (hid : g'.agentID = g.from) :
    ∃ (a : SendAttempt) (l : Letter S) (frame answer : JsFrame) (m : MsgFrame),
      l.SentBy P E messages H a r ∧ cl.writes a.conn l ∧ l.author = cl.pair a.conn ∧
      JsFrame.ofWire (Bytes.utf8 (marshal (Reply.frame g).json)) = some frame ∧
      frame.kind = .str (ofString "msg") ∧ frame.msg = some m ∧
      JsFrame.ofWire (Bytes.utf8 (marshal (Reply.frame g').json)) = some answer ∧
      answer.kind = .str (ofString "agent_info") ∧ answer.peerInfo.agentId = m.sender ∧
      ∀ s : Receiver, S.Backs s.codec → s.Holds l →
        s.decryptMsg m answer.peerInfo = .ok (l.event m.sender) := by
  obtain ⟨hmsg, hstems⟩ := hrun.arrived_stems hg
  obtain ⟨a, l, frame, m, hsent, hwrites, hagent, hframe, hkind, hm, hsender, hcarried⟩ :=
    hstems.letter hmsg cl.sends
  have hauthor := cl.author a.conn l hwrites
  have hne : g'.agentID ≠ "" := by
    rw [hid, ← hsender, hagent]
    exact agentIDFor_ne_empty P _
  obtain ⟨answer, hans, hakind, haid, -, hax⟩ := ofWire_agentInfo g' hop hne
  -- the key in the answer is that of the author's hello
  obtain ⟨c, f, hsaid, hcid, hcard⟩ := hrun.queued_vouched hanswer (.inl hop)
    (t := (g'.agentID, g'.card)) (by simp [Frame.cards, hop])
  obtain ⟨hcpub, hcx⟩ := cl.said hsaid
  have hxfield : g'.x25519 = f.x25519 := congrArg Card.x25519 hcard
  have hkey := cl.pubkey hrun hsent.executed hsent.authed
  have hagents : agentIdOf P (cl.keys c).pub = agentIdOf P (cl.keys a.conn).pub := by
    rw [← ofString_helloAgentID, ← ofString_helloAgentID, ← hcpub, ← hkey, ← hagent, hsender, ← hid]
    exact congrArg ofString hcid.symm
  have hx := cl.distinct c a.conn hagents
  refine ⟨a, l, frame, answer, m, hsent, hwrites, hauthor, hframe, hkind, hm, hans, hakind,
    by rw [haid, hid, hsender],
    fun s hcodec hs => Receiver.decrypts hcodec hs ⟨?_, ?_⟩ hcarried⟩
  · rw [hauthor, cl.xpub]
    exact cl.nonempty _
  · rw [hauthor, cl.xpub, ← hx, hax, hxfield, hcx, ofString, String.toList_ofList,
      Bytes.bufferDecode_base64Std]

end Runs

/-! ### Invites -/

/-- The object that an invite prints. -/
def chankeyFrame (channel pub priv : String) : JsFrame :=
  [("t", .str "chankey"), ("channel", .str channel), ("pub", .str pub), ("priv", .str priv)]

theorem json_chankeyFrame (channel pub priv : String) : ∃ j,
    chankeyText channel pub priv = String.ofList (j.print JsString.quote) ∧ JsParse.Numerals j ∧
      (j.print JsString.quote).head? = some '{' ∧
      JsValue.ofJson j = .obj (chankeyFrame channel pub priv) := by
  have hnames : (["t", "channel", "pub", "priv"] : List JsString).Nodup := by decide
  refine ⟨.obj [("t", .str "chankey"), ("channel", .str channel), ("pub", .str pub),
    ("priv", .str priv)], ?_, by simp [JsParse.Numerals, JsParse.NumeralsMembers], rfl, ?_⟩
  · have hjson : (JsValue.obj (chankeyFrame channel pub priv)).stringify =
        some (ofChars (Json.print JsString.quote (.obj [("t", .str "chankey"),
          ("channel", .str channel), ("pub", .str pub), ("priv", .str priv)]))) := rfl
    change ((JsValue.obj (chankeyFrame channel pub priv)).stringify.getD []).scalars = _
    rw [hjson, Option.getD_some, scalars_ofChars]
  · exact congrArg JsValue.obj (@JsValue.foldl_assign [] (chankeyFrame channel pub priv) hnames)

/-- The other end makes of an invite what was put into it. -/
theorem Codec.parseInvite_chankeyText {c : Codec} {channel pub priv : String}
    (hpub : c.keyLength pub = 32) (hpriv : c.keyLength priv = 32) :
    c.parseInvite (chankeyText channel pub priv) = some ⟨channel, pub, some priv⟩ := by
  obtain ⟨j, htext, hnum, hbrace, hread⟩ := json_chankeyFrame channel pub priv
  have ht : (chankeyFrame channel pub priv).get "t" = .str "chankey" := rfl
  have hchannel : (chankeyFrame channel pub priv).get "channel" = .str channel := rfl
  have hp : (chankeyFrame channel pub priv).get "pub" = .str pub := rfl
  have hk : (chankeyFrame channel pub priv).get "priv" = .str priv := rfl
  unfold parseInvite
  rw [htext, String.toList_ofList, if_neg (not_not_intro hbrace), JsParse.parse_print hnum,
    Option.map_some, hread]
  dsimp only
  rw [ht, hchannel, hp, hk]
  simp [hpub, hpriv]

/-- A client that holds the key of a letter with an invite holds the key of the channel after it. -/
theorem Receiver.accepts_invite {S : CipherSuite} {s : Receiver} {info : PeerInfo} {l : Letter S}
    {m : MsgFrame} {channel pub priv : String} (hcodec : S.Backs s.codec) (hs : s.Holds l)
    (hinfo : info.Names l) (hm : l.CarriedBy m) (hdirect : l.direct = true)
    (htext : l.text = ofString (chankeyText channel pub priv))
    (hpub : s.codec.keyLength pub = 32) (hpriv : s.codec.keyLength priv = 32) (n : ℕ) :
    ∃ ev, s.decryptMsg m info = .ok ev ∧
      (s.accept n ev).channels.get channel = some ⟨channel, pub, some priv⟩ := by
  obtain ⟨j, hprinted, -, hbrace, -⟩ := json_chankeyFrame channel pub priv
  have hplain : l.plain = chankeyText channel pub priv := by
    have hmark : (chankeyText channel pub priv).toList.head? ≠ some Bytes.byteOrderMark := by
      rw [hprinted, String.toList_ofList, hbrace]
      decide
    rw [Letter.plain, htext, scalars_ofString, (Bytes.dropByteOrderMark_eq_self_iff _).mpr hmark,
      String.ofList_toList]
  refine ⟨_, Receiver.decrypts hcodec hs hinfo hm, ?_⟩
  unfold accept
  have hinvite : (if (l.event m.sender).dm then s.codec.parseInvite (l.event m.sender).text
      else none) = some ⟨channel, pub, some priv⟩ := by
    rw [if_pos (show (l.event m.sender).dm = true from hdirect)]
    change s.codec.parseInvite l.plain = _
    rw [hplain, Codec.parseInvite_chankeyText hpub hpriv]
  rw [hinvite]
  dsimp only
  have hset : (s.channels.set channel ⟨channel, pub, some priv⟩).get channel =
      some ⟨channel, pub, some priv⟩ := by
    rw [JsMap.get_set, if_pos rfl]
  cases s.adapter with
  | mcpBridge => exact hset
  | dshPlugin => exact hset
/-! ### An agent that writes to itself -/

def selfKeys : AgentKeys := ⟨List.replicate 32 0, [1]⟩

def selfGreeting : Bytes :=
  ((sendHello selfKeys none (List.replicate 16 0) ⟨0, by decide⟩).signed lenientPlatform
    zeroSignature []).wire

/-- An agent that says hello, asks who it is, and writes to itself. -/
def soliloquy : List Message :=
  [.text selfGreeting, wire selfWhois, .text (selfLetter.wire lenientPlatform zeroSignature [])]

theorem frameOp_selfGreeting {f : Frame} {raw : Raw} (h : parseFrame selfGreeting = some (f, raw)) :
    frameOp f raw = "hello" := by
  have hgreet := @Outgoing.parseFrame_of_decode lenientPlatform zeroSignature _ [] _
    (decode_greeting selfKeys none (List.replicate 16 0) ⟨0, by decide⟩ _)
  have hsame := Option.some.inj (h.symm.trans hgreet)
  rw [(Prod.mk.inj hsame).1]
  rfl

theorem frameOp_selfWhois {f : Frame} {raw : Raw}
    (h : parseFrame (Bytes.utf8 (marshal (Reply.frame selfWhois).json)) = some (f, raw)) :
    frameOp f raw = "whois" := by
  have hop : (parseFrame (Bytes.utf8 (marshal (Reply.frame selfWhois).json))).map
      (fun x => frameOp x.1 x.2) = some "whois" := by
    decide +kernel
  rw [h] at hop
  exact Option.some.inj hop

theorem frameOp_selfLetter {f : Frame} {raw : Raw}
    (h : parseFrame (selfLetter.wire lenientPlatform zeroSignature []) = some (f, raw)) :
    frameOp f raw = "send" := by
  have hletter := selfLetter.parseFrame_letter lenientPlatform zeroSignature []
  rw [h] at hletter
  have hf : f = selfLetter.posted _ := Option.some.inj hletter
  rw [hf]
  rfl

def soliloquist : Clients CipherSuite.zeroTag lenientPlatform zeroSignature fun _ => soliloquy where
  keys _ := selfKeys
  pair _ := selfLetter.author
  writes _ l := l = selfLetter
  xpub _ := rfl
  nonempty _ := List.cons_ne_nil _ _
  hellos := by
    intro c data f raw hdata hparse hop
    rcases List.mem_cons.mp hdata with hdata | hdata
    · exact ⟨none, List.replicate 16 0, ⟨0, by decide⟩, [], Message.text.inj hdata⟩
    rcases List.mem_cons.mp hdata with hdata | hdata
    · rw [Message.text.inj hdata] at hparse
      exact absurd ((frameOp_selfWhois hparse).symm.trans hop) (by decide)
    · rw [Message.text.inj (List.mem_singleton.mp hdata)] at hparse
      exact absurd ((frameOp_selfLetter hparse).symm.trans hop) (by decide)
  author := by
    rintro c l rfl
    rfl
  sends := by
    intro c data f raw hdata hparse hop
    rcases List.mem_cons.mp hdata with hdata | hdata
    · rw [Message.text.inj hdata] at hparse
      exact absurd ((frameOp_selfGreeting hparse).symm.trans hop) (by decide)
    rcases List.mem_cons.mp hdata with hdata | hdata
    · rw [Message.text.inj hdata] at hparse
      exact absurd ((frameOp_selfWhois hparse).symm.trans hop) (by decide)
    · exact ⟨selfLetter, [], rfl, by decide +kernel, by decide,
        Message.text.inj (List.mem_singleton.mp hdata)⟩
  distinct _ _ _ := rfl

/-- The first is an answer about the sender of the second. -/
def Reply.introduces : Reply → Reply → Bool
  | .frame g', .frame g => g.op = "msg" ∧ g'.op = "agent_info" ∧ g'.agentID = g.from
  | _, _ => false

theorem letters_read_sample : ∃ H h g g', HubRun lenientPlatform (fun _ => soliloquy) H h ∧
    Reply.introduces (.frame g') (.frame g) = true ∧
    ∃ (frame answer : JsFrame) (m : MsgFrame),
      JsFrame.ofWire (Bytes.utf8 (marshal (Reply.frame g).json)) = some frame ∧
      frame.msg = some m ∧
      JsFrame.ofWire (Bytes.utf8 (marshal (Reply.frame g').json)) = some answer ∧
      selfClient.decryptMsg m answer.peerInfo = .ok (selfLetter.event m.sender) ∧
      selfLetter.plain = "hi" := by
  have hruns : (alone (serve lenientPlatform 0 "" soliloquy)
      (({} : Hub).openConn 0 .master "")).map (fun r => (r.2.state.conns 0).send.any fun q' =>
        (r.2.state.conns 0).send.any fun q => q'.introduces q) = some true := by
    rw [soliloquy, selfGreeting, Letter.wire, Outgoing.wire_eq]
    decide +kernel
  obtain ⟨⟨_, w⟩, hw, hqueued⟩ := Option.map_eq_some_iff.mp hruns
  obtain ⟨q', hq', hqueued⟩ := List.any_eq_true.mp hqueued
  obtain ⟨q, hq, hint⟩ := List.any_eq_true.mp hqueued
  have hrun : HubRun lenientPlatform (fun _ => soliloquy) _ w.state := HubRun.single hw
  cases q' with
  | enrolled secret => cases hint
  | frame g' =>
    cases q with
    | enrolled secret => cases hint
    | frame g =>
      obtain ⟨hop, hop', hid⟩ := of_decide_eq_true hint
      obtain ⟨a, l, frame, answer, m, -, hl, -, hframe, -, hm, hanswer, -, -, hread⟩ :=
        letters_read soliloquist hrun (.inr ⟨hop, 0, rfl, hrun.send_queued hq⟩)
          (hrun.send_queued hq') hop' hid
      obtain rfl : l = selfLetter := hl
      have hdecrypt := hread (.ofBridge selfClient) CipherSuite.zeroTag.backs_codec
        selfClient_holds
      rw [Receiver.decryptMsg_ofBridge] at hdecrypt
      exact ⟨_, _, g, g', hrun, hint, frame, answer, m, hframe, hm, hanswer, hdecrypt,
        by decide +kernel⟩

end Dap
