import Dap.Lib.GoTypes
import Dap.Hub.Frames

/-! Frames and presence entries as structs that are decoded member by member. -/
namespace Dap
open GoJson Json

def agentStruct : Struct AgentInfo where
  fields := [⟨"agentId", stringType, AgentInfo.agentID⟩, ⟨"pubkey", stringType, AgentInfo.pubkey⟩,
    ⟨"x25519", stringType, AgentInfo.x25519⟩, ⟨"name", stringType, AgentInfo.name⟩,
    ⟨"online", boolType, AgentInfo.online⟩, ⟨"lastSeen", intType, AgentInfo.lastSeen⟩]
  decodeMember := AgentInfo.decodeMember

theorem agentStruct_lawful : agentStruct.Lawful where
  type f hf := by
    simp only [agentStruct, List.mem_cons, List.not_mem_nil, or_false] at hf
    rcases hf with rfl | rfl | rfl | rfl | rfl | rfl
    all_goals first
      | exact scalar_string.lawful
      | exact scalar_bool.lawful
      | exact scalar_int.lawful
  own f hf a m hk := by
    change matchField agentFields m.1 = _ at hk
    change (AgentInfo.decodeMember a m).map f.get = _
    simp only [agentStruct, List.mem_cons, List.not_mem_nil, or_false] at hf
    rcases hf with rfl | rfl | rfl | rfl | rfl | rfl <;>
      simp [AgentInfo.decodeMember, hk, Function.comp_def]
  other f hf a m a' hk h := by
    change ¬ matchField agentFields m.1 = some f.name at hk
    change AgentInfo.decodeMember a m = some a' at h
    cases hn : matchField agentFields m.1 with
    | none =>
      simp only [AgentInfo.decodeMember, hn] at h
      obtain rfl := Option.some.inj h
      rfl
    | some n =>
      have hmem := matchField_mem hn
      rw [hn] at hk
      revert f
      simp only [agentFields, List.mem_cons, List.not_mem_nil, or_false] at hmem
      rcases hmem with rfl | rfl | rfl | rfl | rfl | rfl <;>
        simp only [AgentInfo.decodeMember, hn, Option.map_eq_some_iff] at h <;>
        obtain ⟨x, -, rfl⟩ := h <;> simp [agentStruct]
  skip a m hn := by
    change matchField agentFields m.1 = none at hn
    simp [agentStruct, AgentInfo.decodeMember, hn]

theorem agentStruct_ext {a b : AgentInfo}
    (h : ∀ f ∈ agentStruct.fields, f.type.view (f.get a) = f.type.view (f.get b)) : a = b := by
  simp only [agentStruct, List.mem_cons, List.not_mem_nil, or_false, forall_eq_or_imp,
    forall_eq] at h
  obtain ⟨h1, h2, h3, h4, h5, h6⟩ := h
  cases a
  cases b
  simp_all

abbrev agentsType : FieldType := sliceType agentStruct {} 0

theorem agentsType_lawful : agentsType.Lawful := by
  refine sliceType_lawful agentStruct_lawful (by simp [agentStruct]) ?_ fun a b => agentStruct_ext
  simp [agentStruct]

/-- The frame's fields, in the order of the source. -/
def frameStruct : Struct Decoding where
  fields := [⟨"op", stringType, fun d => d.frame.op⟩, ⟨"v", intType, fun d => d.frame.v⟩,
    ⟨"pubkey", stringType, fun d => d.frame.pubkey⟩,
    ⟨"x25519", stringType, fun d => d.frame.x25519⟩, ⟨"name", stringType, fun d => d.frame.name⟩,
    ⟨"nonce", stringType, fun d => d.frame.nonce⟩, ⟨"ts", intType, fun d => d.frame.ts⟩,
    ⟨"sig", stringType, fun d => d.frame.sig⟩,
    ⟨"agentId", stringType, fun d => d.frame.agentID⟩,
    ⟨"online", boolPtrType, fun d => d.frame.online⟩,
    ⟨"lastSeen", intType, fun d => d.frame.lastSeen⟩,
    ⟨"channel", stringType, fun d => d.frame.channel⟩,
    ⟨"chanPubkey", stringType, fun d => d.frame.chanPubkey⟩,
    ⟨"to", stringType, fun d => d.frame.to⟩, ⟨"from", stringType, fun d => d.frame.from⟩,
    ⟨"id", stringType, fun d => d.frame.id⟩,
    ⟨"replyTo", stringType, fun d => d.frame.replyTo⟩,
    ⟨"ciphertext", stringType, fun d => d.frame.ciphertext⟩,
    ⟨"count", intType, fun d => d.frame.count⟩, ⟨"agents", agentsType, Decoding.agents⟩,
    ⟨"code", stringType, fun d => d.frame.code⟩, ⟨"msg", stringType, fun d => d.frame.msg⟩]
  decodeMember := Decoding.decodeMember

theorem frameStruct_lawful : frameStruct.Lawful where
  type := by
    simp only [frameStruct, List.mem_cons, List.not_mem_nil, or_false, forall_eq_or_imp, forall_eq]
    refine ⟨?_, ?_, ?_, ?_, ?_, ?_, ?_, ?_, ?_, ?_, ?_, ?_, ?_, ?_, ?_, ?_, ?_, ?_, ?_, ?_, ?_, ?_⟩
    all_goals first
      | exact scalar_string.lawful
      | exact scalar_int.lawful
      | exact scalar_boolPtr.lawful
      | exact agentsType_lawful
  own f hf a m hk := by
    change matchField frameFields m.1 = _ at hk
    change (Decoding.decodeMember a m).map f.get = _
    simp only [frameStruct, List.mem_cons, List.not_mem_nil, or_false] at hf
    rcases hf with rfl | rfl | rfl | rfl | rfl | rfl | rfl | rfl | rfl | rfl | rfl | rfl | rfl |
      rfl | rfl | rfl | rfl | rfl | rfl | rfl | rfl | rfl <;>
      simp [Decoding.decodeMember, Decoding.decodeAgents, AgentInfo.decode, agentStruct, hk,
        Function.comp_def]
  other f hf a m a' hk h := by
    change ¬ matchField frameFields m.1 = some f.name at hk
    change Decoding.decodeMember a m = some a' at h
    cases hn : matchField frameFields m.1 with
    | none =>
      simp only [Decoding.decodeMember, hn] at h
      obtain rfl := Option.some.inj h
      rfl
    | some n =>
      have hmem := matchField_mem hn
      rw [hn] at hk
      revert f
      simp only [frameFields, List.mem_cons, List.not_mem_nil, or_false] at hmem
      rcases hmem with rfl | rfl | rfl | rfl | rfl | rfl | rfl | rfl | rfl | rfl | rfl | rfl | rfl |
        rfl | rfl | rfl | rfl | rfl | rfl | rfl | rfl | rfl <;>
        simp only [Decoding.decodeMember, Decoding.decodeAgents, hn,
          Option.map_eq_some_iff] at h <;>
        obtain ⟨x, -, rfl⟩ := h <;> simp [frameStruct]
  skip a m hn := by
    change matchField frameFields m.1 = none at hn
    simp [frameStruct, Decoding.decodeMember, hn]

/-! ### Frames that differ in the signature only -/

theorem decodeMember_agents {d d' : Decoding} {m : String × Json String}
    (h : d.decodeMember m = some d') (hd : d.frame.agents = d.agents.elems) :
    d'.frame.agents = d'.agents.elems := by
  cases hn : matchField frameFields m.1 with
  | none =>
    simp only [Decoding.decodeMember, hn] at h
    exact Option.some.inj h ▸ hd
  | some n =>
    have hmem := matchField_mem hn
    simp only [frameFields, List.mem_cons, List.not_mem_nil, or_false] at hmem
    rcases hmem with rfl | rfl | rfl | rfl | rfl | rfl | rfl | rfl | rfl | rfl | rfl | rfl | rfl |
      rfl | rfl | rfl | rfl | rfl | rfl | rfl | rfl | rfl <;>
      simp only [Decoding.decodeMember, Decoding.decodeAgents, hn, Option.map_eq_some_iff] at h <;>
      obtain ⟨x, -, rfl⟩ := h <;> first | exact hd | rfl

theorem fold_agents {ms : Members} {d d' : Decoding}
    (h : ms.foldlM Decoding.decodeMember d = some d') (hd : d.frame.agents = d.agents.elems) :
    d'.frame.agents = d'.agents.elems := by
  induction ms generalizing d with
  | nil =>
    obtain rfl := Option.some.inj h
    exact hd
  | cons m ms ih =>
    rw [List.foldlM_cons] at h
    obtain ⟨e, he, hrest⟩ := Option.bind_eq_some_iff.mp h
    exact ih hrest (decodeMember_agents he hd)

/-- Equal off the signature means equal in every other field. -/
theorem unsigned_eq_iff {d d' : Decoding} (hd : d.frame.agents = d.agents.elems)
    (hd' : d'.frame.agents = d'.agents.elems) :
    { d'.frame with sig := "" } = { d.frame with sig := "" } ↔
      ∀ f ∈ frameStruct.fields, f.name ≠ "sig" →
        f.type.view (f.get d') = f.type.view (f.get d) := by
  have hagents : d'.agents.elems = d.agents.elems ↔ d'.frame.agents = d.frame.agents := by
    rw [hd, hd']
  simp only [frameStruct, List.mem_cons, List.not_mem_nil, or_false, forall_eq_or_imp, forall_eq,
    Frame.mk.injEq]
  simp [hagents]

end Dap
