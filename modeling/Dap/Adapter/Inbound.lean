import Dap.Adapter.CanonicalJson
import Dap.Adapter.Receiving
import Dap.Adapter.Sealing
import Dap.Hub.Frames
import Dap.Lib.JsPretty

/-! Messages of the hub as the clients read them off the wire: `handleRaw`, and what `onMsg` takes
of a frame (`adapters/mcp-bridge/src/client.ts`, `adapters/dsh-plugin/src/client.ts`). -/
namespace Dap
open Json GoJson

/-! ### Reading a frame -/

namespace JsFrame

/-- `JSON.parse(String(data))`; `none` where that throws or is no object. -/
def ofWire (data : Bytes) : Option JsFrame :=
  match (JsParse.parse (Bytes.decodeUtf8 none data)).map JsValue.ofJson with
  | some (.obj frame) => some frame
  | _ => none

/-- `frame.op ?? frame.t`. -/
def kind (frame : JsFrame) : JsValue :=
  match frame.get "op" with
  | .undefined | .null => frame.get "t"
  | op => op

/-- `String(frame[key])`. -/
def text (frame : JsFrame) (key : String) : String := (frame.get key).template.scalars

def optText (frame : JsFrame) (key : String) : Option String :=
  match frame.get key with
  | .undefined => none
  | v => some v.template.scalars

/-- The members that `onMsg` reads; `none` where `ts` is no integer. -/
def msg (frame : JsFrame) : Option MsgFrame :=
  match frame.get "ts" with
  | .num (.int ts) => some
    { id := frame.text "id"
      sender := frame.text "from"
      peer := frame.optText "to"
      channel := frame.optText "channel"
      ciphertext := frame.text "ciphertext"
      ts := ts.val }
  | _ => none

end JsFrame

/-! ### What the hub has marshalled -/

def valueOf (v : Json String) : JsValue := JsValue.ofJson (v.mapStr JsString.ofString)

theorem ofJsonMembers_mapMembers (ms : Members) :
    JsValue.ofJsonMembers (mapMembers JsString.ofString ms) =
      ms.map fun m => (JsString.ofString m.1, valueOf m.2) := by
  induction ms with
  | nil => rfl
  | cons m ms ih => rw [mapMembers, JsValue.ofJsonMembers, ih, List.map_cons, valueOf]

theorem lookup_ofString (ms : Members) (key : String) :
    (ms.map fun m => (JsString.ofString m.1, valueOf m.2)).lookup (JsString.ofString key) =
      (ms.lookup key).map valueOf := by
  induction ms with
  | nil => rfl
  | cons m ms ih =>
    rw [List.map_cons, List.lookup_cons, List.lookup_cons]
    by_cases h : key = m.1
    · subst h
      simp
    · have hne : (JsString.ofString key == JsString.ofString m.1) = false := by
        rw [beq_eq_false_iff_ne]
        exact fun heq => h (JsString.ofString_injective heq)
      rw [hne, beq_eq_false_iff_ne.mpr h]
      exact ih

/-- An object whose members have different names is read as it was marshalled. -/
theorem ofWire_marshal {ms : Members} (hnum : JsParse.NumeralsMembers ms)
    (hkeys : (ms.map Prod.fst).Nodup) : ∃ frame,
      JsFrame.ofWire (Bytes.utf8 (marshal (.obj ms))) = some frame ∧
        ∀ key, frame.get key = ((ms.lookup key).map valueOf).getD .undefined := by
  have hread : JsParse.parse (Bytes.decodeUtf8 none (Bytes.utf8 (marshal (.obj ms)))) =
      some ((Json.obj ms).mapStr JsString.ofString) := by
    rw [Bytes.decodeUtf8_utf8]
    exact JsParse.parse_marshal hnum
  have hnames : ((ms.map fun m => (JsString.ofString m.1, valueOf m.2)).map Prod.fst).Nodup := by
    rw [List.map_map]
    have hmap : (Prod.fst ∘ fun m : String × Json String => (JsString.ofString m.1, valueOf m.2)) =
        JsString.ofString ∘ Prod.fst := rfl
    rw [hmap, ← List.map_map]
    exact hkeys.map JsString.ofString_injective
  refine ⟨ms.map fun m => (JsString.ofString m.1, valueOf m.2), ?_, fun key => ?_⟩
  · have hassign := @JsValue.foldl_assign [] _ hnames
    rw [JsFrame.ofWire, hread, Option.map_some, mapStr, JsValue.ofJson, ofJsonMembers_mapMembers,
      hassign, List.nil_append]
  · rw [JsFrame.get, lookup_ofString]

/-! ### Frames of the hub -/

/-- What a field is marshalled to: one member under its name, or nothing. -/
def Slot (field : String × Members) : Prop :=
  field.2 = [] ∨ ∃ v, field.2 = [(field.1, v)] ∧ JsParse.Numerals v

theorem slot_strOmitEmpty (key s : String) : Slot (key, strOmitEmpty key s) := by
  unfold strOmitEmpty
  split
  · exact .inl rfl
  · exact .inr ⟨_, rfl, trivial⟩

theorem slot_intOmitEmpty (key : String) (n : Int64) : Slot (key, intOmitEmpty key n) := by
  unfold intOmitEmpty
  split
  · exact .inl rfl
  · exact .inr ⟨_, rfl, numeric_toString n.toInt⟩

theorem numerals_slots {fields : List (String × Members)} (h : ∀ p ∈ fields, Slot p) :
    JsParse.NumeralsMembers (fields.flatMap Prod.snd) := by
  induction fields with
  | nil => trivial
  | cons p fields ih =>
    have hrest := ih fun q hq => h q (List.mem_cons_of_mem _ hq)
    rw [List.flatMap_cons]
    rcases h p List.mem_cons_self with hp | ⟨v, hp, hv⟩
    · rwa [hp, List.nil_append]
    · rw [hp]
      exact ⟨hv, hrest⟩

theorem keys_slots {fields : List (String × Members)} (h : ∀ p ∈ fields, Slot p) :
    ((fields.flatMap Prod.snd).map Prod.fst).Sublist (fields.map Prod.fst) := by
  induction fields with
  | nil => exact List.Sublist.refl _
  | cons p fields ih =>
    have hrest := ih fun q hq => h q (List.mem_cons_of_mem _ hq)
    rw [List.flatMap_cons, List.map_append, List.map_cons]
    rcases h p List.mem_cons_self with hp | ⟨v, hp, -⟩
    · rw [hp]
      exact hrest.cons _
    · rw [hp]
      exact hrest.cons_cons _

/-- A field is found where it was written. -/
theorem lookup_slots {fields : List (String × Members)} (h : ∀ p ∈ fields, Slot p)
    (hnames : (fields.map Prod.fst).Nodup) {p : String × Members} (hp : p ∈ fields) :
    (fields.flatMap Prod.snd).lookup p.1 = p.2.lookup p.1 := by
  induction fields with
  | nil => cases hp
  | cons q fields ih =>
    rw [List.map_cons, List.nodup_cons] at hnames
    have hslots : ∀ p ∈ fields, Slot p := fun r hr => h r (List.mem_cons_of_mem _ hr)
    rw [List.flatMap_cons, List.lookup_append]
    rcases List.mem_cons.mp hp with rfl | hp
    · have habsent : (fields.flatMap Prod.snd).lookup p.1 = none := by
        rw [List.lookup_eq_none_iff]
        intro m hm
        rw [bne_iff_ne]
        intro heq
        exact hnames.1 (heq ▸ (keys_slots hslots).subset (List.mem_map_of_mem hm))
      rw [habsent, Option.or_none]
    · have hother : q.2.lookup p.1 = none := by
        have hne : p.1 ≠ q.1 := fun heq => hnames.1 (heq ▸ List.mem_map_of_mem hp)
        rcases h q List.mem_cons_self with hq | ⟨v, hq, -⟩
        · rw [hq, List.lookup_nil]
        · rw [hq, List.lookup_cons, beq_eq_false_iff_ne.mpr hne, List.lookup_nil]
      rw [hother, Option.none_or]
      exact ih hslots hnames.2 hp

def AgentInfo.fields (a : AgentInfo) : List (String × Members) :=
  [("agentId", [("agentId", .str a.agentID)]), ("pubkey", [("pubkey", .str a.pubkey)]),
    ("x25519", strOmitEmpty "x25519" a.x25519), ("name", strOmitEmpty "name" a.name),
    ("online", [("online", .bool a.online)]), ("lastSeen", intOmitEmpty "lastSeen" a.lastSeen)]

theorem AgentInfo.members_eq (a : AgentInfo) : a.members = a.fields.flatMap Prod.snd := by
  simp [AgentInfo.members, AgentInfo.fields]

theorem AgentInfo.slots (a : AgentInfo) : ∀ p ∈ a.fields, Slot p := by
  simp only [AgentInfo.fields, List.forall_mem_cons, List.not_mem_nil, false_implies, implies_true,
    and_true]
  exact ⟨.inr ⟨_, rfl, trivial⟩, .inr ⟨_, rfl, trivial⟩, slot_strOmitEmpty _ _,
    slot_strOmitEmpty _ _, .inr ⟨_, rfl, trivial⟩, slot_intOmitEmpty _ _⟩

theorem numerals_agents (agents : List AgentInfo) :
    JsParse.NumeralsElems (agents.map fun a => .obj a.members) := by
  induction agents with
  | nil => trivial
  | cons a agents ih =>
    refine ⟨?_, ih⟩
    change JsParse.NumeralsMembers a.members
    rw [a.members_eq]
    exact numerals_slots a.slots

def Frame.fields (f : Frame) : List (String × Members) :=
  [("op", [("op", .str f.op)]), ("v", intOmitEmpty "v" f.v),
    ("pubkey", strOmitEmpty "pubkey" f.pubkey), ("x25519", strOmitEmpty "x25519" f.x25519),
    ("name", strOmitEmpty "name" f.name), ("nonce", strOmitEmpty "nonce" f.nonce),
    ("ts", intOmitEmpty "ts" f.ts), ("sig", strOmitEmpty "sig" f.sig),
    ("agentId", strOmitEmpty "agentId" f.agentID), ("online", onlineMember f.online),
    ("lastSeen", intOmitEmpty "lastSeen" f.lastSeen), ("channel", strOmitEmpty "channel" f.channel),
    ("chanPubkey", strOmitEmpty "chanPubkey" f.chanPubkey), ("to", strOmitEmpty "to" f.to),
    ("from", strOmitEmpty "from" f.from), ("id", strOmitEmpty "id" f.id),
    ("replyTo", strOmitEmpty "replyTo" f.replyTo),
    ("ciphertext", strOmitEmpty "ciphertext" f.ciphertext), ("count", intOmitEmpty "count" f.count),
    ("agents", agentsMember f.agents), ("code", strOmitEmpty "code" f.code),
    ("msg", strOmitEmpty "msg" f.msg)]

theorem Frame.members_eq (f : Frame) : f.members = f.fields.flatMap Prod.snd := by
  simp [Frame.members, Frame.fields]

theorem Frame.slots (f : Frame) : ∀ p ∈ f.fields, Slot p := by
  have honline : Slot ("online", onlineMember f.online) := by
    cases f.online with
    | none => exact .inl rfl
    | some b => exact .inr ⟨_, rfl, trivial⟩
  have hagents : Slot ("agents", agentsMember f.agents) := by
    unfold agentsMember
    split
    · exact .inl rfl
    · exact .inr ⟨_, rfl, numerals_agents _⟩
  simp only [Frame.fields, List.forall_mem_cons, List.not_mem_nil, false_implies, implies_true,
    and_true, slot_strOmitEmpty, slot_intOmitEmpty, honline, hagents]
  exact .inr ⟨_, rfl, trivial⟩

/-- The clients read every field of a frame of the hub where it was written. -/
theorem ofWire_frame (f : Frame) : ∃ frame,
    JsFrame.ofWire (Bytes.utf8 (marshal (Reply.frame f).json)) = some frame ∧
      ∀ p ∈ f.fields, frame.get p.1 = ((p.2.lookup p.1).map valueOf).getD .undefined := by
  have hnames : (f.fields.map Prod.fst).Nodup := by
    change frameFields.Nodup
    decide
  obtain ⟨frame, hframe, hget⟩ := ofWire_marshal (f.members_eq ▸ numerals_slots f.slots)
    (f.members_eq ▸ (keys_slots f.slots).nodup hnames)
  refine ⟨frame, hframe, fun p hp => ?_⟩
  rw [hget, f.members_eq, lookup_slots f.slots hnames hp]

section Fields

variable {g : Frame} {frame : JsFrame}
  (hget : ∀ p ∈ g.fields, frame.get p.1 = ((p.2.lookup p.1).map valueOf).getD .undefined)

include hget

theorem get_text (key s : String) (hp : (key, strOmitEmpty key s) ∈ g.fields) (hs : s ≠ "") :
    frame.get key = .str (JsString.ofString s) := by
  rw [hget _ hp]
  simp [strOmitEmpty, hs, valueOf, mapStr, JsValue.ofJson]

theorem text_text (key s : String) (hp : (key, strOmitEmpty key s) ∈ g.fields) (hs : s ≠ "") :
    frame.text key = s := by
  rw [JsFrame.text, get_text hget key s hp hs]
  exact JsString.scalars_ofString s

theorem optText_text (key s : String) (hp : (key, strOmitEmpty key s) ∈ g.fields) :
    frame.optText key = if s = "" then none else some s := by
  by_cases hs : s = ""
  · have hnone : frame.get key = .undefined := by
      rw [hget _ hp]
      simp [strOmitEmpty, hs]
    rw [JsFrame.optText, hnone, if_pos hs]
  · rw [JsFrame.optText, get_text hget key s hp hs, if_neg hs]
    exact congrArg some (JsString.scalars_ofString s)

theorem get_int (key : String) {n : Int64} (hp : (key, intOmitEmpty key n) ∈ g.fields)
    (hn : n ≠ 0) : ∃ hlt, frame.get key = .num (.int ⟨n.toInt, hlt⟩) := by
  have hlt : n.toInt.natAbs < 10 ^ 21 := by
    have hlo := n.le_toInt
    have hhi := n.toInt_lt
    omega
  refine ⟨hlt, ?_⟩
  have hback := JsNumber.ofLiteral_text (.int ⟨n.toInt, hlt⟩)
  rw [hget _ hp]
  simp only [intOmitEmpty, if_neg hn, List.lookup_cons, beq_self_eq_true, Option.map_some,
    Option.getD_some, valueOf, mapStr, JsValue.ofJson, formatInt]
  exact congrArg JsValue.num hback

end Fields

/-- A message of the hub is read by the clients as what it says. -/
theorem ofWire_msg (g : Frame) (hop : g.op = "msg") (hid : g.id ≠ "") (hfrom : g.from ≠ "")
    (hct : g.ciphertext ≠ "") (hts : g.ts ≠ 0) : ∃ frame,
      JsFrame.ofWire (Bytes.utf8 (marshal (Reply.frame g).json)) = some frame ∧
        frame.kind = .str (JsString.ofString "msg") ∧ frame.msg = some
          { id := g.id
            sender := g.from
            peer := if g.to = "" then none else some g.to
            channel := if g.channel = "" then none else some g.channel
            ciphertext := g.ciphertext
            ts := g.ts.toInt } := by
  obtain ⟨frame, hframe, hget⟩ := ofWire_frame g
  refine ⟨frame, hframe, ?_, ?_⟩
  · have hkind : frame.get "op" = .str (JsString.ofString "msg") := by
      rw [hget ("op", [("op", .str g.op)]) (by simp [Frame.fields]), hop]
      rfl
    rw [JsFrame.kind, hkind]
  · obtain ⟨hlt, hnum⟩ := get_int hget "ts" (n := g.ts) (by simp [Frame.fields]) hts
    rw [JsFrame.msg, hnum, text_text hget "id" g.id (by simp [Frame.fields]) hid,
      text_text hget "from" g.from (by simp [Frame.fields]) hfrom,
      text_text hget "ciphertext" g.ciphertext (by simp [Frame.fields]) hct,
      optText_text hget "to" g.to (by simp [Frame.fields]),
      optText_text hget "channel" g.channel (by simp [Frame.fields])]

end Dap
