import Dap.Hub.Handover

/-! How an accepted channel message reaches the members of its channel (`hub/channels.go`). -/
namespace Dap
open Proc

/-- A push fails here: the queue is over its cap, or the connection is found closed, or the final
`select` falls on the closed case. -/
def Refuses (e : HubSection) : Prop :=
  match e.label with
  | .load d r => (e.pre.conns d).queued + r.length > maxQueuedBytes
  | .checkClosed d => (e.pre.conns d).closed = true
  | .select d _ => ¬ QueueReady d e
  | _ => False

/-- Nothing but `g` is delivered. -/
def DeliversOnly (g : Frame) (t : List HubSection) : Prop :=
  ∀ e ∈ t, ∀ (g' : Frame) (m : String) (conn : Option ConnID), reaches g' m conn e = true → g' = g

theorem DeliversOnly.append {g : Frame} {t t' : List HubSection} (h : DeliversOnly g t)
    (h' : DeliversOnly g t') : DeliversOnly g (t ++ t') :=
  fun e he => (List.mem_append.mp he).elim (h e) (h' e)

/-- Where a trace takes `g`: to the connections `conns`, of which `d` accepts it `n d` times, and to
the mailboxes `ids`. A refusal is a push that is missing. -/
structure Tally (g : Frame) (conns : List ConnID) (ids : List String) (t : List HubSection) :
    Prop where
  only : DeliversOnly g t
  counts : ∃ n : ConnID → ℕ, (∀ d, n d ≤ conns.count d) ∧
    (∀ m d, t.countP (reaches g m (some d)) = n d + ids.count m) ∧
    (∀ m, t.countP (reaches g m none) = ids.count m) ∧
    ((∀ e ∈ t, ¬ Refuses e) ↔ ∀ d, n d = conns.count d)

namespace Tally

variable {g : Frame} {conns conns' : List ConnID} {ids ids' : List String}
  {t t' : List HubSection}

theorem append (h : Tally g conns ids t) (h' : Tally g conns' ids' t') :
    Tally g (conns ++ conns') (ids ++ ids') (t ++ t') := by
  obtain ⟨honly, n, hle, hsome, hnone, href⟩ := h
  obtain ⟨honly', n', hle', hsome', hnone', href'⟩ := h'
  refine ⟨honly.append honly', fun d => n d + n' d, ?_, ?_, ?_, ?_⟩
  · intro d
    rw [List.count_append]
    exact Nat.add_le_add (hle d) (hle' d)
  · intro m d
    rw [List.countP_append, List.count_append, hsome, hsome']
    dsimp only
    omega
  · intro m
    rw [List.countP_append, List.count_append, hnone, hnone']
  · have hmem : (∀ e ∈ t ++ t', ¬ Refuses e) ↔
        (∀ e ∈ t, ¬ Refuses e) ∧ ∀ e ∈ t', ¬ Refuses e := by
      simp only [List.mem_append, or_imp, forall_and]
    rw [hmem, href, href', ← forall_and]
    refine forall_congr' fun d => ?_
    have hd := hle d
    have hd' := hle' d
    rw [List.count_append]
    dsimp only
    omega

theorem of_unreached {e : HubSection} (hreach : ∀ g m conn, reaches g m conn e = false)
    (href : ¬ Refuses e) : Tally g [] [] [e] := by
  refine ⟨?_, fun _ => 0, by simp, ?_, ?_, ?_⟩
  · intro x hx g' m conn hr
    rw [List.mem_singleton.mp hx, hreach] at hr
    exact Bool.noConfusion hr
  · intro m d
    simp [hreach]
  · intro m
    simp [hreach]
  · simp [href]

theorem of_inert {e : HubSection} (he : e.label.inert = true) : Tally g [] [] [e] := by
  apply of_unreached (reaches_of_passive (Label.inert.passive he))
  cases hl : e.label <;> simp_all [Refuses, Label.inert, Label.passive]

theorem latched {e : HubSection} (he : e.label = .latch) : Tally g [] [] [e] := by
  apply of_unreached
  · intro g m conn
    simp [reaches, he]
  · simp [Refuses, he]

theorem of_inerts (he : ∀ e ∈ t, e.label.inert = true) : Tally g [] [] t := by
  induction t with
  | nil => exact ⟨by simp [DeliversOnly], fun _ => 0, by simp⟩
  | cons e t ih =>
    exact (of_inert (he e (by simp))).append (ih fun x hx => he x (List.mem_cons_of_mem _ hx))

/-- What is enqueued is appended to the mailbox. -/
theorem enqueued {id : String} {s : Hub} {pick : Bool} :
    Tally g [] [id] [⟨.enqueue id g, s, (s.enqueueLocked id g).2, pick⟩] := by
  have hself : ∀ m conn, reaches g m conn ⟨.enqueue id g, s, (s.enqueueLocked id g).2, pick⟩ =
      decide (id = m) := by
    intro m conn
    by_cases hid : id = m
    · simp [reaches, Hub.enqueueLocked_mailbox, hid]
    · simp [reaches, hid]
  refine ⟨?_, fun _ => 0, by simp, ?_, ?_, ?_⟩
  · intro e he g' m conn hreach
    rw [List.mem_singleton.mp he] at hreach
    obtain ⟨rfl, hmail⟩ := of_decide_eq_true hreach
    rw [s.enqueueLocked_mailbox, if_pos rfl] at hmail
    exact (s.mailed_injective id (Option.some.inj hmail)).symm
  · intro m d
    rw [List.countP_singleton, hself]
    simp [List.count_singleton]
  · intro m
    rw [List.countP_singleton, hself]
    simp [List.count_singleton]
  · simp [Refuses]

theorem refused {d : ConnID} (href : ∃ e ∈ t, Refuses e)
    (hreach : ∀ e ∈ t, ∀ g m conn, reaches g m conn e = false) : Tally g [d] [] t := by
  have hzero : ∀ m conn, t.countP (reaches g m conn) = 0 := by
    intro m conn
    rw [List.countP_eq_zero]
    exact fun e he => by simp [hreach e he g m conn]
  refine ⟨?_, fun _ => 0, by simp, ?_, ?_, ?_⟩
  · intro e he g' m conn hr
    rw [hreach e he] at hr
    exact Bool.noConfusion hr
  · intro m d'
    simp [hzero]
  · intro m
    simp [hzero]
  · obtain ⟨e, he, hr⟩ := href
    constructor
    · intro h
      exact absurd hr (h e he)
    · intro h
      have hd := h d
      simp at hd

theorem accepted {d : ConnID} (href : ∀ e ∈ t, ¬ Refuses e) (honly : DeliversOnly g t)
    (hreach : ∀ m conn, t.countP (reaches g m conn) = if conn = some d then 1 else 0) :
    Tally g [d] [] t := by
  refine ⟨honly, fun d' => [d].count d', fun _ => le_refl _, ?_, ?_, ?_⟩
  · intro m d'
    rw [hreach]
    by_cases hd : d = d'
    · simp [hd]
    · simp [hd, Ne.symm hd]
  · intro m
    simp [hreach]
  · exact ⟨fun _ _ => rfl, fun _ => href⟩

/-- One call of `sendFrame`, whichever way it goes. -/
theorem sent {d : ConnID} {ok : Bool} (h : SendTrace d (.frame g) ok t) : Tally g [d] [] t := by
  have hun : ok = false → ∀ e ∈ t, ∀ g m conn, reaches g m conn e = false := by
    rintro rfl
    exact h.unreached
  cases h with
  | @shed load log closedAs drop hload hover hlog hclosedAs hdrop =>
    exact refused ⟨load, by simp, by simpa [Refuses, hload] using hover⟩ (hun rfl)
  | @gone load reserve check release hload hunder hreserve hcheck hclosed hrelease =>
    exact refused ⟨check, by simp, by simpa [Refuses, hcheck] using hclosed⟩ (hun rfl)
  | @queued load reserve check select hload hunder hreserve hcheck hopen hselect hready hpost =>
    have h1 : ∀ g m conn, reaches g m conn load = false := by simp [reaches, hload]
    have h2 : ∀ g m conn, reaches g m conn reserve = false := by simp [reaches, hreserve]
    have h3 : ∀ g m conn, reaches g m conn check = false := by simp [reaches, hcheck]
    have h4 : ∀ g' m conn, reaches g' m conn select = decide (conn = some d ∧ g = g') := by
      simp [reaches, hselect, hpost]
    refine accepted ?_ ?_ ?_
    · intro e he
      simp only [List.mem_cons, List.not_mem_nil, or_false] at he
      rcases he with rfl | rfl | rfl | rfl
      · simpa [Refuses, hload] using hunder
      · simp [Refuses, hreserve]
      · simpa [Refuses, hcheck] using hopen
      · simpa [Refuses, hselect] using hready
    · intro e he g' m conn hreach
      simp only [List.mem_cons, List.not_mem_nil, or_false] at he
      rcases he with rfl | rfl | rfl | rfl
      · simp [h1] at hreach
      · simp [h2] at hreach
      · simp [h3] at hreach
      · rw [h4] at hreach
        exact (of_decide_eq_true hreach).2.symm
    · intro m conn
      simp [List.countP_cons, h1, h2, h3, h4]
  | @missed load reserve check select release hload hunder hreserve hcheck hopen hselect hready
      hpost hrelease =>
    exact refused ⟨select, by simp, by simpa [Refuses, hselect] using hready⟩ (hun rfl)

end Tally

/-- The loop over the connected members. -/
theorem records_pushes (g : Frame) (online : List (String × ConnID)) :
    Records (online.forM fun m => do
      let _ ← sendFrame m.2 (.frame g))
      fun _ t => Tally g (online.map Prod.snd) [] t := by
  induction online with
  | nil => exact Records.pure (.of_inerts (by simp))
  | cons m rest ih =>
    have hbody : Records (do let _ ← sendFrame m.2 (.frame g))
        fun (_ : PUnit) t => Tally g [m.2] [] t :=
      Records.bind (records_sendFrame _ _) fun ok t ht =>
        Records.pure (by simpa using Tally.sent ht)
    exact Records.bind hbody fun _ t ht => ih.mono fun _ t' ht' => ht.append ht'

/-- The loop over the absent members. -/
theorem records_mailings (g : Frame) (offline : List String) :
    Records (offline.forM fun agentID => do
      let _ ← enqueue agentID g)
      fun _ t => Tally g [] offline t := by
  induction offline with
  | nil => exact Records.pure (.of_inerts (by simp))
  | cons m rest ih =>
    have hbody : Records (do let _ ← enqueue m g)
        fun (_ : PUnit) t => Tally g [] [m] t :=
      Records.bind (Q := fun _ t => Tally g [] [m] t) (Records.atomically fun _ _ => .enqueued)
        fun size t ht => Records.pure (by simpa using ht)
    exact Records.bind hbody fun _ t ht => ih.mono fun _ t' ht' => ht.append ht'

/-- Sections that read who the sender is, resolve the targets of `f`, and take the message there. -/
def FansOut (c : ConnID) (f : Frame) (t : List HubSection) : Prop :=
  ∃ own ∈ t, own.label = .own c ∧ ∃ e ∈ t, e.label = .targets ∧
    ∃ ch, e.pre.channels[f.channel]? = some ch ∧
      Tally (channelMsg (own.pre.conns c).agentID f) ((e.pre.targets ch).online.map Prod.snd)
        (e.pre.targets ch).offline t

theorem channelTargets_ok {P : Platform} {c : ConnID} {f : Frame} {h : Hub} {t : Targets}
    (hok : h.channelTargets P c f = .ok t) :
    ∃ ch, h.channels[f.channel]? = some ch ∧ t = h.targets ch := by
  unfold Hub.channelTargets at hok
  dsimp only at hok
  split at hok
  · simp at hok
  next ch hch =>
    split at hok
    · simp at hok
    split at hok
    · simp at hok
    exact ⟨ch, hch, (Except.ok.inj hok).symm⟩

theorem records_deliverChannel (P : Platform) (c : ConnID) (f : Frame) :
    Records (deliverChannel P c f) fun ok t => if ok then FansOut c f t else Refused t := by
  unfold deliverChannel
  refine Records.bind (Q := fun k t => ∃ e : HubSection, t = [e] ∧ e.label = .own c ∧
    k = e.pre.conns c) (Records.read fun _ _ => ⟨_, rfl, rfl, rfl⟩) ?_
  rintro k _ ⟨own, rfl, hown, rfl⟩
  refine Records.bind (Q := fun r t => ∃ e : HubSection, t = [e] ∧ e.label = .targets ∧
      r = e.pre.channelTargets P c f) (Records.read fun _ _ => ⟨_, rfl, rfl, rfl⟩) ?_
  rintro r _ ⟨e, rfl, he, hr⟩
  have h1 : ∀ x ∈ [own, e], x.label.inert = true := by
    simp [hown, he, Label.inert, Label.passive]
  split
  · refine Records.bind (records_inert rfl) fun _ t2 h2 =>
      Records.bind (records_sendErr c _ _) fun _ t3 h3 => Records.pure ?_
    simpa using (Idle.of_inert h1).1.append ((Idle.of_inert h2).1.append h3)
  next targets =>
    refine Records.bind (records_pushes _ targets.online) fun _ t2 h2 =>
      Records.bind (records_mailings _ targets.offline) fun _ t3 h3 =>
        Records.bind (records_inert rfl) fun _ t4 h4 => Records.pure ?_
    obtain ⟨ch, hch, rfl⟩ := channelTargets_ok hr.symm
    refine ⟨own, by simp, hown, e, by simp, he, ch, hch, ?_⟩
    simpa using (Tally.of_inerts h1).append (h2.append (h3.append (Tally.of_inerts h4)))

/-- A channel send is latched once it has fanned out, and else it is refused. -/
theorem records_handleSend_channel (P : Platform) (c : ConnID) (f : Frame) (raw : Raw)
    (hto : f.to = "") :
    Records (handleSend P c f raw) fun _ t => (Accepted t ∧ FansOut c f t) ∨ Refused t := by
  have hdeliver : Records (deliver P c f) fun ok t => if ok then FansOut c f t else Refused t := by
    unfold deliver
    rw [if_neg (by simpa using hto)]
    exact records_deliverChannel P c f
  refine records_handleSend P c f raw hdeliver ?_
  rintro t t' latch ht ⟨own, hmem, hown, e, he, hl, ch, hch, htally⟩ hlatch
  refine ⟨own, by simp [hmem], hown, e, by simp [he], hl, ch, hch, ?_⟩
  simpa using (Tally.of_inerts ht).append (htally.append (Tally.latched hlatch))

/-- A send is latched or refused, wherever it goes. -/
theorem records_handleSend_settled (P : Platform) (c : ConnID) (f : Frame) (raw : Raw) :
    Records (handleSend P c f raw) fun _ t => Accepted t ∨ Refused t := by
  have hdeliver : Records (deliver P c f) fun ok t => if ok then True else Refused t := by
    unfold deliver
    split
    · refine (records_deliverDM c f).mono fun ok t h => ?_
      cases ok
      · exact h
      · trivial
    · refine (records_deliverChannel P c f).mono fun ok t h => ?_
      cases ok
      · exact h
      · trivial
  have hsettled := records_handleSend P c f raw (T := fun _ => True) hdeliver
    fun _ _ _ _ _ _ => trivial
  exact hsettled.mono fun _ t h => h.imp_left And.left

/-- A send that puts a message into a queue or a mailbox is latched. -/
theorem accepted_of_delivers {P : Platform} {c : ConnID} {f : Frame} {raw : Raw}
    {s w : World Hub Label} (hs : s.trace = []) (hrun : handleSend P c f raw s = some ((), w))
    {e : HubSection} (he : e ∈ w.trace) (hd : Delivers e) : Accepted w.trace := by
  obtain ⟨t, ht, hq⟩ := records_handleSend_settled P c f raw s () w hrun
  obtain rfl : w.trace = t := by simpa [hs] using ht
  exact hq.resolve_right fun hrefused => (hrefused e he).2 hd

/-! ### Who is reached -/

theorem Hub.count_offline (h : Hub) (ch : Channel) {m : String} (hm : m ∈ ch.members) :
    (h.targets ch).offline.count m = if h.clients[m]?.isNone then 1 else 0 := by
  have hkeys : ch.members.keys.count m = 1 :=
    List.count_eq_one_of_mem Std.ExtTreeMap.nodup_keys (Std.ExtTreeMap.mem_keys.mpr hm)
  unfold targets
  dsimp only
  split
  next hnone =>
    rw [List.count_filter (p := fun m => h.clients[m]?.isNone) hnone, hkeys]
  next hsome =>
    rw [List.count_eq_zero]
    intro hmem
    exact hsome (List.mem_filter.mp hmem).2

theorem Hub.count_online (h : Hub) (ch : Channel) {m : String} {d : ConnID} (hm : m ∈ ch.members)
    (hd : h.clients[m]? = some d) (hinj : ∀ m' : String, h.clients[m']? = some d → m' = m) :
    ((h.targets ch).online.map Prod.snd).count d = 1 := by
  have hkeys : ch.members.keys.count m = 1 :=
    List.count_eq_one_of_mem Std.ExtTreeMap.nodup_keys (Std.ExtTreeMap.mem_keys.mpr hm)
  have hsnd : (h.targets ch).online.map Prod.snd =
      ch.members.keys.filterMap fun m' => h.clients[m']? := by
    unfold targets
    dsimp only
    rw [List.map_filterMap]
    congr 1
    funext m'
    cases h.clients[m']? <;> rfl
  rw [hsnd, List.count, List.countP_filterMap, ← hkeys, List.count]
  refine List.countP_congr fun m' _ => ?_
  by_cases heq : m' = m
  · subst heq
    simp [hd]
  · have hne : h.clients[m']? ≠ some d := fun hd' => heq (hinj m' hd')
    cases hc : h.clients[m']? with
    | none => simp [heq]
    | some d' =>
      have hdd : d' ≠ d := fun h' => hne (by rw [hc, h'])
      simp [heq, hdd]

theorem Hub.online_mem (h : Hub) (ch : Channel) {d : ConnID}
    (hd : d ∈ (h.targets ch).online.map Prod.snd) :
    ∃ m, m ∈ ch.members ∧ h.clients[m]? = some d := by
  obtain ⟨⟨m, d'⟩, hmem, rfl⟩ := List.mem_map.mp hd
  obtain ⟨m', hm', hmap⟩ := List.mem_filterMap.mp hmem
  obtain ⟨d'', hd'', heq⟩ := Option.map_eq_some_iff.mp hmap
  obtain ⟨rfl, rfl⟩ : m' = m ∧ d'' = d' := by simpa using heq
  exact ⟨m', Std.ExtTreeMap.mem_keys.mp hm', hd''⟩

/-- When no two members share a connection, every member is reached once exactly when no push was
refused. -/
theorem Tally.all_reached_iff {g : Frame} {h : Hub} {ch : Channel} {t : List HubSection}
    (ht : Tally g ((h.targets ch).online.map Prod.snd) (h.targets ch).offline t)
    (hinj : ∀ (m m' : String) (d : ConnID), h.clients[m]? = some d → h.clients[m']? = some d →
      m' = m) :
    (∀ m ∈ ch.members, t.countP (reaches g m h.clients[m]?) = 1) ↔ ∀ e ∈ t, ¬ Refuses e := by
  obtain ⟨-, n, hle, hsome, hnone, href⟩ := ht
  rw [href]
  constructor
  · intro hall d
    by_cases hd : d ∈ (h.targets ch).online.map Prod.snd
    · obtain ⟨m, hm, hmd⟩ := h.online_mem ch hd
      have hone := hall m hm
      rw [hmd, hsome, h.count_offline ch hm, hmd] at hone
      rw [h.count_online ch hm hmd fun m' => hinj m m' d hmd]
      simpa using hone
    · have hzero := List.count_eq_zero.mpr hd
      have := hle d
      omega
  · intro hn m hm
    cases hmd : h.clients[m]? with
    | none => rw [hnone, h.count_offline ch hm, hmd]; rfl
    | some d =>
      rw [hsome, hn, h.count_offline ch hm, hmd,
        h.count_online ch hm hmd fun m' => hinj m m' d hmd]
      rfl

/-- An accepted channel message reaches each member once, its connection or its mailbox as the
connection map had it when the targets were resolved, exactly when no push was refused. -/
theorem channel_reaches_all_iff {P : Platform} {c : ConnID} {h : Hub} (hr : Reachable P h)
    (hs : (h.conns c).stage = .serving) (f : Frame) (raw : Raw) (hto : f.to = "")
    {script : List (Beat Hub)} (hrely : Relies (Others P c) script) {w : World Hub Label}
    (hrun : handleSend P c f raw { state := h, script := script } = some ((), w))
    (hacc : Accepted w.trace) :
    ∃ e ∈ w.trace, e.label = .targets ∧ ∃ ch, e.pre.channels[f.channel]? = some ch ∧
      ((∀ m ∈ ch.members, w.trace.countP
          (reaches (channelMsg (h.conns c).agentID f) m e.pre.clients[m]?) = 1) ↔
        ∀ x ∈ w.trace, ¬ Refuses x) := by
  obtain ⟨t, ht, hq⟩ := records_handleSend_channel P c f raw hto _ () w hrun
  obtain rfl : w.trace = t := by simpa using ht
  rcases hq with ⟨-, own, hmem, -, e, he, hl, ch, hch, htally⟩ | hrefused
  · have hown := handleSend_own hr hs f raw hrely hrun
    rw [(hown own hmem).2] at htally
    have hi := Coherent.reachable (hown e he).1
    refine ⟨e, he, hl, ch, hch, htally.all_reached_iff ?_⟩
    intro m m' d hm hm'
    exact (hi.client m' d hm').2.1.symm.trans (hi.client m d hm).2.1
  · exact absurd hacc hrefused.not_accepted

/-- The two agents in a channel that the first has created. -/
def roomOfTwo : Hub :=
  ((twoAgents.joinLocked lenientPlatform 0 "room" "").2.joinLocked lenientPlatform 1 "room" "").2

def sampleChannelSend : Frame where
  op := "send"
  channel := "room"
  id := "m1"
  ciphertext := "AAAA"
  sig := "AAAA"

theorem roomOfTwo_reachable : Reachable lenientPlatform roomOfTwo := by
  have h1 := twoAgents_reachable.step (.joined 0 "room" "" (by decide +kernel))
  exact h1.step (.joined 1 "room" "" (by decide +kernel))

theorem channel_reaches_all_iff_sample :
    ∃ w, handleSend lenientPlatform 0 sampleChannelSend [] { state := roomOfTwo } = some ((), w) ∧
      ∃ e ∈ w.trace, e.label = .targets ∧ ∃ ch, e.pre.channels["room"]? = some ch ∧
        ((∀ m ∈ ch.members,
            w.trace.countP (reaches (channelMsg (roomOfTwo.conns 0).agentID sampleChannelSend) m
              e.pre.clients[m]?) = 1) ↔
          ∀ x ∈ w.trace, ¬ Refuses x) := by
  have hrun : ((handleSend lenientPlatform 0 sampleChannelSend [] { state := roomOfTwo }).map
      fun r => decide (Accepted r.2.trace)) = some true := by decide +kernel
  obtain ⟨⟨_, w⟩, hw, hacc⟩ := Option.map_eq_some_iff.mp hrun
  exact ⟨w, hw, channel_reaches_all_iff roomOfTwo_reachable (by decide +kernel) sampleChannelSend []
    rfl (fun _ hb => by simp at hb) hw (of_decide_eq_true hacc)⟩

/-- The second member's connection is dropped once the targets are resolved. -/
def dropsMember : List (Beat Hub) := dropsAfter 5 1

theorem channel_member_missed :
    Reachable lenientPlatform roomOfTwo ∧ Relies (Others lenientPlatform 0) dropsMember ∧
    ∃ w, handleSend lenientPlatform 0 sampleChannelSend []
        { state := roomOfTwo, script := dropsMember } = some ((), w) ∧ Accepted w.trace ∧
      ∃ e ∈ w.trace, e.label = .targets ∧ ∃ ch, e.pre.channels["room"]? = some ch ∧
        ∃ m ∈ ch.members, w.trace.countP
          (reaches (channelMsg (roomOfTwo.conns 0).agentID sampleChannelSend) m
            e.pre.clients[m]?) = 0 := by
  refine ⟨roomOfTwo_reachable, relies_dropsAfter _ _, ?_⟩
  have hrun : ((handleSend lenientPlatform 0 sampleChannelSend []
      { state := roomOfTwo, script := dropsMember }).map fun r =>
        decide (Accepted r.2.trace) && r.2.trace.any fun e => decide (e.label = .targets) &&
          (e.pre.channels["room"]?).any fun ch => ch.members.keys.any fun m =>
            decide (r.2.trace.countP
              (reaches (channelMsg (roomOfTwo.conns 0).agentID sampleChannelSend) m
                e.pre.clients[m]?) = 0)) =
      some true := by decide +kernel
  obtain ⟨⟨_, w⟩, hw, hbool⟩ := Option.map_eq_some_iff.mp hrun
  obtain ⟨hacc, e, he, hl, hch⟩ : Accepted w.trace ∧ ∃ e ∈ w.trace, e.label = .targets ∧
      ((e.pre.channels["room"]?).any fun ch => ch.members.keys.any fun m =>
        decide (w.trace.countP
          (reaches (channelMsg (roomOfTwo.conns 0).agentID sampleChannelSend) m
            e.pre.clients[m]?) = 0)) = true := by
    simpa using hbool
  obtain ⟨ch, hsome, hany⟩ := (Option.any_eq_true _ _).mp hch
  obtain ⟨m, hm, hzero⟩ := List.any_eq_true.mp hany
  exact ⟨w, hw, hacc, e, he, hl, ch, hsome, m, Std.ExtTreeMap.mem_keys.mp hm,
    of_decide_eq_true hzero⟩

end Dap
