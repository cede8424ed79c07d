import Dap.Hub.Auth
import Dap.Hub.FrameStruct

/-! What a signature over the raw object says about the typed frame that the hub acts on. -/
namespace Dap
open GoJson Json

/-! ### What the payload covers -/

/-- The members that a signature covers. -/
def unsigned (raw : Raw) : Raw := raw.filter fun kv => kv.1 ≠ "sig"

theorem payload_ok {P : Platform} {raw : Raw} {f : Frame} (hsig : f.sig ≠ "") :
    signedPayloadFor P raw f = .ok ("dap1|" ++ f.op ++ "|" ++ formatInt f.ts ++ "|" ++
      Bytes.hex (P.sha256 (Bytes.utf8 (canonicalJSON (unsigned raw)))).val) := if_neg hsig

theorem append_cons_inj {α : Type} {c : α} {x x' z z' : List α} (hz : c ∉ z) (hz' : c ∉ z')
    (h : x ++ c :: z = x' ++ c :: z') : x = x' ∧ z = z' := by
  induction x generalizing x' with
  | nil =>
    cases x' with
    | nil => exact ⟨rfl, (List.cons.inj h).2⟩
    | cons a x' =>
      rw [(List.cons.inj h).2] at hz
      exact absurd (by simp) hz
  | cons a x ih =>
    cases x' with
    | nil =>
      rw [← (List.cons.inj h).2] at hz'
      exact absurd (by simp) hz'
    | cons a' x' =>
      obtain ⟨rfl, hrest⟩ := List.cons.inj h
      obtain ⟨rfl, rfl⟩ := ih hrest
      exact ⟨rfl, rfl⟩

theorem formatInt_injective : Function.Injective formatInt := by
  intro a b h
  have hparse : ∀ n : Int64, parseInt (formatInt n) = some n := by
    intro n
    have hlo := n.le_toInt
    have hhi := n.toInt_lt
    rw [formatInt, parseInt_toString hlo hhi, Int64.ofInt_toInt]
  have hsame := hparse a
  rw [h, hparse b] at hsame
  exact (Option.some.inj hsame).symm

theorem bar_not_mem_formatInt (n : Int64) : '|' ∉ (formatInt n).toList := by
  intro h
  have hdigit : '|' ∉ Nat.toDigits 10 n.toInt.natAbs := fun hmem =>
    absurd (isDigit_toDigits hmem) (by decide)
  rw [formatInt, toList_toString] at h
  split at h
  · exact hdigit h
  · rcases List.mem_cons.mp h with heq | hmem
    · exact absurd heq (by decide)
    · exact hdigit hmem

/-- Equal payloads have equal ops and timestamps and, where the hash does not collide, cover equal
texts. -/
theorem payload_inj {P : Platform} {f f' : Frame} {raw raw' : Raw} (hsig : f.sig ≠ "")
    (hsha : Separates P (canonicalJSON (unsigned raw')) (canonicalJSON (unsigned raw)))
    (h : signedPayloadFor P raw' f' = signedPayloadFor P raw f) :
    f'.op = f.op ∧ f'.ts = f.ts ∧
      canonicalJSON (unsigned raw') = canonicalJSON (unsigned raw) := by
  have hsig' : f'.sig ≠ "" := by
    intro hempty
    rw [signedPayloadFor, if_pos hempty, payload_ok hsig] at h
    exact absurd h (by simp)
  have hhex : ∀ bs, '|' ∉ (Bytes.hex bs).toList := by
    intro bs hmem
    rw [Bytes.hex, String.toList_ofList] at hmem
    exact Bytes.hexChars_forall (p := fun c => c ≠ '|') (by decide) bs _ hmem rfl
  have hlist : ∀ (op ts hex : String), ("dap1|" ++ op ++ "|" ++ ts ++ "|" ++ hex).toList =
      ("dap1|".toList ++ op.toList ++ '|' :: ts.toList) ++ '|' :: hex.toList := by
    intro op ts hex
    simp [String.toList_append]
  rw [payload_ok hsig, payload_ok hsig', Except.ok.injEq, ← String.toList_inj, hlist, hlist] at h
  obtain ⟨hfront, hdigest⟩ := append_cons_inj (hhex _) (hhex _) h
  obtain ⟨hop, hts⟩ := append_cons_inj (bar_not_mem_formatInt _) (bar_not_mem_formatInt _) hfront
  refine ⟨String.toList_inj.mp (List.append_cancel_left hop),
    formatInt_injective (String.toList_inj.mp hts), hsha (Subtype.ext ?_)⟩
  exact Bytes.hex_injective (String.toList_inj.mp hdigest)

/-! ### What the object fixes -/

/-- Apart from `op`, `ts` and `sig`, all members of the object for one field fix the same value of
it. -/
def Unambiguous (raw : Raw) : Prop :=
  ∀ f ∈ frameStruct.fields, f.name ≠ "op" → f.name ≠ "ts" → f.name ≠ "sig" →
    ∃ x, frameStruct.Settles raw f x

theorem parseFrame_members {data : Bytes} {f : Frame} {raw : Raw}
    (h : parseFrame data = some (f, raw)) (hsig : f.sig ≠ "") :
    ∃ ms d, Json.parse (Bytes.runes 0 data) = some (.obj ms) ∧
      ms.foldlM Decoding.decodeMember {} = some d ∧ d.frame = f ∧ toAnyMembers ms = raw := by
  unfold parseFrame at h
  split at h
  next ms hparse =>
    obtain ⟨d, hd, heq⟩ := Option.map_eq_some_iff.mp h
    obtain ⟨hf, hraw⟩ := Prod.mk.inj heq
    exact ⟨ms, d, hparse, hd, hf, hraw⟩
  next =>
    obtain ⟨rfl, -⟩ := Prod.mk.inj (Option.some.inj h)
    exact absurd rfl hsig
  next => exact absurd h (by simp)

theorem mem_unsigned {f : FieldOf Decoding} (hf : f.name ≠ "sig") {raw : Raw}
    {m : String × Json String} (hk : frameStruct.selects f m.1) : m ∈ unsigned raw ↔ m ∈ raw := by
  have hkey : m.1 ≠ "sig" := by
    intro heq
    rw [heq] at hk
    have hexact : matchField frameFields "sig" = some "sig" := by decide
    exact hf (Option.some.inj (hexact.symm.trans hk)).symm
  simp [unsigned, hkey]

/-- Members with the same unambiguous object decode alike, `op`, `ts` and `sig` apart. -/
theorem view_eq_of_unambiguous {ms ms' : Members} {d d' : Decoding}
    (hd : ms.foldlM Decoding.decodeMember {} = some d)
    (hd' : ms'.foldlM Decoding.decodeMember {} = some d')
    (hraw : unsigned (toAnyMembers ms') = unsigned (toAnyMembers ms))
    (hu : Unambiguous (toAnyMembers ms)) {f : FieldOf Decoding} (hf : f ∈ frameStruct.fields)
    (hop : f.name ≠ "op") (hts : f.name ≠ "ts") (hsig : f.name ≠ "sig") :
    f.type.view (f.get d') = f.type.view (f.get d) := by
  have hmem : ∀ m : String × Json String, frameStruct.selects f m.1 →
      (m ∈ toAnyMembers ms' ↔ m ∈ toAnyMembers ms) := by
    intro m hk
    rw [← mem_unsigned hsig hk, hraw, mem_unsigned hsig hk]
  by_cases hsome : ∃ m ∈ ms, frameStruct.selects f m.1
  · obtain ⟨x, hx⟩ := hu f hf hop hts hsig
    obtain ⟨m, hm, hk⟩ := Struct.exists_selected_iff.mpr hsome
    have hsome' := Struct.exists_selected_iff.mp ⟨m, (hmem m hk).mpr hm, hk⟩
    rw [frameStruct_lawful.fold_settled hf hd hx hsome]
    exact frameStruct_lawful.fold_settled hf hd' (fun m hm hk => hx m ((hmem m hk).mp hm) hk) hsome'
  · have hnone' : ∀ m ∈ ms', ¬ frameStruct.selects f m.1 := by
      intro m hm hk
      obtain ⟨m, hm, hk⟩ := Struct.exists_selected_iff.mpr ⟨m, hm, hk⟩
      exact hsome (Struct.exists_selected_iff.mp ⟨m, (hmem m hk).mp hm, hk⟩)
    push Not at hsome
    rw [frameStruct_lawful.fold_other hf hd hsome, frameStruct_lawful.fold_other hf hd' hnone']

/-- A printed object decodes to what its members do. -/
theorem parseFrame_marshal {ms : Members} {d : Decoding}
    (hread : Readable maxNestingDepth (.obj ms))
    (hd : ms.foldlM Decoding.decodeMember {} = some d) :
    parseFrame (Bytes.utf8 (marshal (.obj ms))) = some (d.frame, toAnyMembers ms) := by
  rw [parseFrame, Bytes.runes_utf8, marshal, parse_print (quotes true) hread, mapStr_id]
  dsimp only
  rw [hd]
  rfl

/-- A text with the same object, for which a field that the object leaves open decodes differently,
and every other field alike. -/
theorem exists_text_of_unsettled {data : Bytes} {ms : Members} {d : Decoding}
    (hparse : Json.parse (Bytes.runes 0 data) = some (.obj ms))
    (hd : ms.foldlM Decoding.decodeMember {} = some d) {f : FieldOf Decoding}
    (hf : f ∈ frameStruct.fields) (hno : ∀ x, ¬ frameStruct.Settles (toAnyMembers ms) f x) :
    ∃ data' d', parseFrame data' = some (d'.frame, toAnyMembers ms) ∧
      d'.frame.agents = d'.agents.elems ∧ f.type.view (f.get d') ≠ f.type.view (f.get d) ∧
      ∀ g ∈ frameStruct.fields, g.name ≠ f.name → g.get d' = g.get d := by
  have hsome : ∃ m ∈ ms, frameStruct.selects f m.1 := by
    by_contra hnone
    refine hno (f.type.view (f.get d)) fun m hm hk => ?_
    exact absurd (Struct.exists_selected_iff.mp ⟨m, hm, hk⟩) hnone
  obtain ⟨more, hk, hmap, hread, hdecode⟩ := frameStruct_lawful.unsettled hf
    (Option.isSome_iff_exists.mpr ⟨d, hd⟩) hsome hno (f.type.view (f.get d))
  obtain ⟨s, hs, hview⟩ := hdecode (f.get d)
  obtain ⟨d', hd', rfl⟩ := frameStruct_lawful.fold_own hf hk hs
  have hfold : (ms ++ more).foldlM Decoding.decodeMember {} = some d' := by
    rw [List.foldlM_append, hd]
    exact hd'
  have hheight : f.type.height ≤ 9999 := by
    revert f
    simp [frameStruct]
  have hms : Readable maxNestingDepth (.obj ms) := readable_parse hparse
  have hnew : Readable maxNestingDepth (.obj (ms ++ more)) := by
    refine readableMembers_append hms (readableMembers_iff.mpr ?_)
    exact hread 9999 hheight (readableMembers_iff.mp hms)
  refine ⟨_, d', hmap ▸ parseFrame_marshal hnew hfold, fold_agents hfold rfl, hview, ?_⟩
  intro g hg hne
  refine frameStruct_lawful.fold_other hg hd' fun m hm hkg => hne ?_
  exact Option.some.inj (hkg.symm.trans (hk m hm))

/-- A signed text agrees with every other text of its payload on the typed frame, the signature
apart, exactly when the raw object is unambiguous. -/
theorem typed_view_signed_iff (P : Platform) {data : Bytes} {f : Frame} {raw : Raw}
    (h : parseFrame data = some (f, raw)) (hsig : f.sig ≠ "") :
    (∀ (data' : Bytes) (f' : Frame) (raw' : Raw), parseFrame data' = some (f', raw') →
        signedPayloadFor P raw' f' = signedPayloadFor P raw f →
        Separates P (canonicalJSON (unsigned raw')) (canonicalJSON (unsigned raw)) →
        { f' with sig := "" } = { f with sig := "" }) ↔ Unambiguous raw := by
  obtain ⟨ms, d, hparse, hd, rfl, rfl⟩ := parseFrame_members h hsig
  have hagents := fold_agents hd rfl
  constructor
  · intro hall g hg hop hts hgsig
    by_contra hno
    push Not at hno
    obtain ⟨data', d', hparse', hagents', hview, hother⟩ :=
      exists_text_of_unsettled hparse hd hg hno
    have hsame : ∀ n, n ≠ g.name → ∀ k ∈ frameStruct.fields, k.name = n → k.get d' = k.get d :=
      fun n hn k hk heq => hother k hk (heq ▸ hn)
    have hop' : d'.frame.op = d.frame.op :=
      hsame "op" hop.symm ⟨"op", stringType, fun d => d.frame.op⟩ (by simp [frameStruct]) rfl
    have hts' : d'.frame.ts = d.frame.ts :=
      hsame "ts" hts.symm ⟨"ts", intType, fun d => d.frame.ts⟩ (by simp [frameStruct]) rfl
    have hsig' : d'.frame.sig = d.frame.sig :=
      hsame "sig" hgsig.symm ⟨"sig", stringType, fun d => d.frame.sig⟩ (by simp [frameStruct]) rfl
    have hpayload : signedPayloadFor P (toAnyMembers ms) d'.frame =
        signedPayloadFor P (toAnyMembers ms) d.frame := by
      rw [payload_ok hsig, payload_ok (hsig' ▸ hsig), hop', hts']
    have hagree := hall data' d'.frame _ hparse' hpayload fun _ => rfl
    exact hview ((unsigned_eq_iff hagents hagents').mp hagree g hg hgsig)
  · intro hu data' f' raw' hparse' hpayload hsha
    have hsig' : f'.sig ≠ "" := by
      intro hempty
      rw [signedPayloadFor, if_pos hempty, payload_ok hsig] at hpayload
      exact absurd hpayload (by simp)
    obtain ⟨hop, hts, htext⟩ := payload_inj hsig hsha hpayload
    obtain ⟨ms', d', hms', hd', rfl, rfl⟩ := parseFrame_members hparse' hsig'
    have hread : ∀ {data : Bytes} {ms : Members},
        Json.parse (Bytes.runes 0 data) = some (.obj ms) →
        Readable maxNestingDepth (.obj (unsigned (toAnyMembers ms))) := by
      intro data ms hms
      have hall : ReadableMembers 9999 (toAnyMembers ms) :=
        readable_toAnyMembers ms 9999 (readable_parse hms)
      rw [readableMembers_iff] at hall
      exact readableMembers_iff.mpr fun m hm => hall m (List.mem_of_mem_filter hm)
    have hraw := Json.obj.inj (print_inj (quotes false) (hread hms') (hread hparse) htext)
    refine (unsigned_eq_iff hagents (fold_agents hd' rfl)).mpr fun g hg hgsig => ?_
    have hsigned : ∀ g ∈ frameStruct.fields, g.name = "op" ∨ g.name = "ts" →
        g.type.view (g.get d') = g.type.view (g.get d) := by
      simp [frameStruct, hop, hts]
    by_cases hgop : g.name = "op"
    · exact hsigned g hg (.inl hgop)
    by_cases hgts : g.name = "ts"
    · exact hsigned g hg (.inr hgts)
    exact view_eq_of_unambiguous hd hd' hraw hu hg hgop hgts hgsig

/-- An object of strings, as it is sent. -/
def stringMembers (kvs : List (String × String)) : Members := kvs.map fun kv => (kv.1, .str kv.2)

theorem parseFrame_strings {kvs : List (String × String)} {d : Decoding}
    (hd : (stringMembers kvs).foldlM Decoding.decodeMember {} = some d) :
    parseFrame (Bytes.utf8 (marshal (.obj (stringMembers kvs)))) =
      some (d.frame, toAnyMembers (stringMembers kvs)) := by
  refine parseFrame_marshal (readableMembers_iff.mpr fun m hm => ?_) hd
  obtain ⟨kv, -, rfl⟩ := List.mem_map.mp hm
  exact trivial

def directMessage (recipients : List (String × String)) : Members :=
  stringMembers ([("op", "send")] ++ recipients ++
    [("id", "m1"), ("ciphertext", "AAAA"), ("sig", "AAAA")])

theorem typed_view_signed_iff_sample :
    ∃ f raw, parseFrame (Bytes.utf8 (marshal (.obj (directMessage [("to", "alice")])))) =
        some (f, raw) ∧
      ((∀ (data' : Bytes) (f' : Frame) (raw' : Raw), parseFrame data' = some (f', raw') →
        signedPayloadFor lenientPlatform raw' f' = signedPayloadFor lenientPlatform raw f →
        Separates lenientPlatform (canonicalJSON (unsigned raw')) (canonicalJSON (unsigned raw)) →
        { f' with sig := "" } = { f with sig := "" }) ↔ Unambiguous raw) := by
  have hsig : ((directMessage [("to", "alice")]).foldlM Decoding.decodeMember {}).map
      (fun d => decide (d.frame.sig ≠ "")) = some true := by decide +kernel
  obtain ⟨d, hd, hne⟩ := Option.map_eq_some_iff.mp hsig
  have hparse := parseFrame_strings hd
  exact ⟨d.frame, _, hparse,
    typed_view_signed_iff lenientPlatform hparse (of_decide_eq_true hne)⟩

/-- Two spellings of `to` in either order: one payload, two recipients. -/
theorem respelled_recipient :
    ∃ data data' f f' raw raw', parseFrame data = some (f, raw) ∧
      parseFrame data' = some (f', raw') ∧
      (∀ P, ∃ payload, signedPayloadFor P raw f = .ok payload ∧
        signedPayloadFor P raw' f' = .ok payload) ∧ f.to ≠ f'.to := by
  have hfields : (((directMessage [("to", "alice"), ("To", "bob")]).foldlM
      Decoding.decodeMember {}).bind fun d =>
        ((directMessage [("To", "bob"), ("to", "alice")]).foldlM Decoding.decodeMember {}).map
          fun d' => decide (d.frame.op = d'.frame.op ∧ d.frame.ts = d'.frame.ts ∧
            d.frame.sig ≠ "" ∧ d'.frame.sig ≠ "" ∧ d.frame.to ≠ d'.frame.to)) = some true := by
    decide +kernel
  obtain ⟨d, hd, hrest⟩ := Option.bind_eq_some_iff.mp hfields
  obtain ⟨d', hd', hbool⟩ := Option.map_eq_some_iff.mp hrest
  obtain ⟨hop, hts, hsig, hsig', hto⟩ := of_decide_eq_true hbool
  have hraw : toAnyMembers (directMessage [("To", "bob"), ("to", "alice")]) =
      toAnyMembers (directMessage [("to", "alice"), ("To", "bob")]) := by
    simp +decide [directMessage, stringMembers, toAnyMembers, toAny, insertKey]
  refine ⟨_, _, _, _, _, _, parseFrame_strings hd, parseFrame_strings hd',
    fun P => ⟨_, payload_ok hsig, ?_⟩, hto⟩
  change signedPayloadFor P (toAnyMembers (directMessage _)) _ = _
  rw [payload_ok hsig', hraw, ← hop, ← hts]
  rfl

end Dap
