import Dap.Hub.Announcements

/-! The write pump of a connection (`hub/relay.go`): what reaches the socket, and in which order,
while the read loops of the hub queue frames for it. -/
namespace Dap
open Proc

/-! ### Model -/

/-- Where the pump stands. `unsent` is the frame that it failed to write, if any. -/
inductive PumpStage where
  | selecting
  | writing (r : Reply)
  | accounting (r : Reply)
  | refusing (r : Reply)
  | refused
  | pinging
  | returning (unsent : List Reply)
  | finished (unsent : List Reply)
  deriving DecidableEq

/-- The pump of a connection. `cut` tells that `CloseNow` has been called, `wire` is what has been
written to the socket, and `refusal` the answer to a failed hello among it. -/
structure WritePump where
  stage : PumpStage := .selecting
  cut : Bool := false
  wire : List Reply := []
  refusal : Option Reply := none
  deriving DecidableEq

/-- What the pump does next, with the outcome of the socket's operations; `cutOff` is the end of
somebody else's `drop`. -/
inductive PumpEvent where
  | receive
  | wrote (ok : Bool)
  | accounted
  | refuse
  | answered (ok : Bool)
  | dropped
  | tick
  | pinged (ok : Bool)
  | sawClosed
  | left
  | cutOff
  deriving DecidableEq

namespace WritePump

variable (c : ConnID)

/-- `none` when the event is not enabled. Nothing is written to a socket that has been cut. -/
def step (k : WritePump) (h : Hub) : PumpEvent → Option (WritePump × Hub)
  | .receive =>
    match k.stage, (h.conns c).send with
    | .selecting, r :: rest =>
      some ({ k with stage := .writing r }, h.updConn c fun d => { d with send := rest })
    | _, _ => none
  | .wrote ok =>
    match k.stage with
    | .writing r =>
      if ok then
        if k.cut then none else some ({ k with stage := .accounting r, wire := k.wire ++ [r] }, h)
      else some ({ k with stage := .returning [r] },
        (h.closedAs c .writeFail).logged "write_fail"
          [("agent", (h.conns c).logAgent), ("queued", toString (h.conns c).queued)])
    | _ => none
  | .accounted =>
    match k.stage with
    | .accounting r => some ({ k with stage := .selecting },
        h.updConn c fun d => { d with queued := d.queued - r.length })
    | _ => none
  | .refuse =>
    match k.stage, (h.conns c).rejectCh with
    | .selecting, some r =>
      some ({ k with stage := .refusing r }, h.updConn c fun d => { d with rejectCh := none })
    | _, _ => none
  | .answered ok =>
    match k.stage with
    | .refusing r =>
      if ok then
        if k.cut then none
        else some ({ k with stage := .refused, wire := k.wire ++ [r], refusal := some r }, h)
      else some ({ k with stage := .refused }, h)
    | _ => none
  | .dropped =>
    match k.stage with
    | .refused => some ({ k with stage := .selecting, cut := true }, h.dropped c)
    | _ => none
  | .tick =>
    match k.stage with
    | .selecting => some ({ k with stage := .pinging }, h)
    | _ => none
  | .pinged ok =>
    match k.stage with
    | .pinging =>
      if ok then some ({ k with stage := .selecting }, h)
      else some ({ k with stage := .returning [] },
        (h.closedAs c .pingTimeout).logged "ping_timeout" [("agent", (h.conns c).logAgent)])
    | _ => none
  | .sawClosed =>
    match k.stage with
    | .selecting =>
      if (h.conns c).closed then some ({ k with stage := .returning [] }, h) else none
    | _ => none
  | .left =>
    match k.stage with
    | .returning unsent =>
      some ({ k with stage := .finished unsent, cut := true }, h.dropped c)
    | _ => none
  | .cutOff => if (h.conns c).closed then some ({ k with cut := true }, h) else none

/-- The pump alone. -/
def play (evs : List PumpEvent) (x : WritePump × Hub) : Option (WritePump × Hub) :=
  evs.foldlM (fun x ev => x.1.step c x.2 ev) x

/-- What the pump has taken from the queue and not written. -/
def unwritten (k : WritePump) : List Reply :=
  match k.stage with
  | .writing r => [r]
  | .returning unsent => unsent
  | .finished unsent => unsent
  | _ => []

/-- The ways an event can go. -/
inductive Moves (k : WritePump) (h : Hub) : WritePump → Hub → Prop where
  | received {r rest} (hk : k.stage = .selecting) (hsend : (h.conns c).send = r :: rest) :
      Moves k h { k with stage := .writing r } (h.updConn c fun d => { d with send := rest })
  | wrote {r} (hk : k.stage = .writing r) (hcut : k.cut = false) :
      Moves k h { k with stage := .accounting r, wire := k.wire ++ [r] } h
  | failed {r} (hk : k.stage = .writing r) (kvs) :
      Moves k h { k with stage := .returning [r] }
        ((h.closedAs c .writeFail).logged "write_fail" kvs)
  | accounted {r} (hk : k.stage = .accounting r) :
      Moves k h { k with stage := .selecting }
        (h.updConn c fun d => { d with queued := d.queued - r.length })
  | refused {r} (hk : k.stage = .selecting) (hr : (h.conns c).rejectCh = some r) :
      Moves k h { k with stage := .refusing r } (h.updConn c fun d => { d with rejectCh := none })
  | answered {r} (hk : k.stage = .refusing r) (hcut : k.cut = false) :
      Moves k h { k with stage := .refused, wire := k.wire ++ [r], refusal := some r } h
  | unanswered {r} (hk : k.stage = .refusing r) : Moves k h { k with stage := .refused } h
  | dropped (hk : k.stage = .refused) :
      Moves k h { k with stage := .selecting, cut := true } (h.dropped c)
  | ticked (hk : k.stage = .selecting) : Moves k h { k with stage := .pinging } h
  | ponged (hk : k.stage = .pinging) : Moves k h { k with stage := .selecting } h
  | unponged (hk : k.stage = .pinging) (kvs) :
      Moves k h { k with stage := .returning [] }
        ((h.closedAs c .pingTimeout).logged "ping_timeout" kvs)
  | sawClosed (hk : k.stage = .selecting) (hclosed : (h.conns c).closed = true) :
      Moves k h { k with stage := .returning [] } h
  | left {unsent} (hk : k.stage = .returning unsent) :
      Moves k h { k with stage := .finished unsent, cut := true } (h.dropped c)
  | cutOff (hclosed : (h.conns c).closed = true) : Moves k h { k with cut := true } h

theorem step_moves {k k' : WritePump} {h h' : Hub} {ev : PumpEvent}
    (hs : k.step c h ev = some (k', h')) : Moves c k h k' h' := by
  cases ev with
  | receive =>
    simp only [step] at hs
    split at hs
    next hk hsend =>
      obtain ⟨rfl, rfl⟩ := Prod.mk.inj (Option.some.inj hs)
      exact .received hk hsend
    next => cases hs
  | wrote ok =>
    simp only [step] at hs
    split at hs
    next r hk =>
      split at hs
      · split at hs
        next => cases hs
        next hcut =>
          obtain ⟨rfl, rfl⟩ := Prod.mk.inj (Option.some.inj hs)
          exact .wrote hk (by simpa using hcut)
      · obtain ⟨rfl, rfl⟩ := Prod.mk.inj (Option.some.inj hs)
        exact .failed hk _
    next => cases hs
  | accounted =>
    simp only [step] at hs
    split at hs
    next r hk =>
      obtain ⟨rfl, rfl⟩ := Prod.mk.inj (Option.some.inj hs)
      exact .accounted hk
    next => cases hs
  | refuse =>
    simp only [step] at hs
    split at hs
    next hk hr =>
      obtain ⟨rfl, rfl⟩ := Prod.mk.inj (Option.some.inj hs)
      exact .refused hk hr
    next => cases hs
  | answered ok =>
    simp only [step] at hs
    split at hs
    next r hk =>
      split at hs
      · split at hs
        next => cases hs
        next hcut =>
          obtain ⟨rfl, rfl⟩ := Prod.mk.inj (Option.some.inj hs)
          exact .answered hk (by simpa using hcut)
      · obtain ⟨rfl, rfl⟩ := Prod.mk.inj (Option.some.inj hs)
        exact .unanswered hk
    next => cases hs
  | dropped =>
    simp only [step] at hs
    split at hs
    next hk =>
      obtain ⟨rfl, rfl⟩ := Prod.mk.inj (Option.some.inj hs)
      exact .dropped hk
    next => cases hs
  | tick =>
    simp only [step] at hs
    split at hs
    next hk =>
      obtain ⟨rfl, rfl⟩ := Prod.mk.inj (Option.some.inj hs)
      exact .ticked hk
    next => cases hs
  | pinged ok =>
    simp only [step] at hs
    split at hs
    next hk =>
      split at hs
      · obtain ⟨rfl, rfl⟩ := Prod.mk.inj (Option.some.inj hs)
        exact .ponged hk
      · obtain ⟨rfl, rfl⟩ := Prod.mk.inj (Option.some.inj hs)
        exact .unponged hk _
    next => cases hs
  | sawClosed =>
    simp only [step] at hs
    split at hs
    next hk =>
      split at hs
      next hclosed =>
        obtain ⟨rfl, rfl⟩ := Prod.mk.inj (Option.some.inj hs)
        exact .sawClosed hk hclosed
      next => cases hs
    next => cases hs
  | left =>
    simp only [step] at hs
    split at hs
    next unsent hk =>
      obtain ⟨rfl, rfl⟩ := Prod.mk.inj (Option.some.inj hs)
      exact .left hk
    next => cases hs
  | cutOff =>
    simp only [step] at hs
    split at hs
    next hclosed =>
      obtain ⟨rfl, rfl⟩ := Prod.mk.inj (Option.some.inj hs)
      exact .cutOff hclosed
    next => cases hs

/-! ### The pump as one of the others -/

theorem send_closedAs (h : Hub) (reason : CloseReason) :
    ((h.closedAs c reason).conns c).send = (h.conns c).send :=
  h.updConn_send (fun k => by split <;> rfl) c c

theorem suffix_updConn {f : Conn → Conn} (h : Hub) (hf : (f (h.conns c)).send <:+ (h.conns c).send)
    (d : ConnID) : ((h.updConn c f).conns d).send <:+ (h.conns d).send := by
  by_cases hd : d = c
  · subst hd
    rwa [h.updConn_conns_self]
  · rw [h.updConn_conns_of_ne f hd]

/-- What the pump does is what the hub's runs leave open: frames leave the queue in order, and
connections die. -/
theorem Moves.ambient {k k' : WritePump} {h h' : Hub} (hm : Moves c k h k' h') :
    Ambient h h' := by
  have hupd : ∀ f : Conn → Conn, (f (h.conns c)).identity = (h.conns c).identity →
      (f (h.conns c)).closed = (h.conns c).closed → (f (h.conns c)).send <:+ (h.conns c).send →
      Ambient h (h.updConn c f) := fun f hid hcl hsend =>
    .quiet (h.quiet_updConn c f hid fun hc => hcl.trans hc) (suffix_updConn c h hsend)
  have hsame : Ambient h h := .quiet (.refl h) fun _ => List.suffix_refl _
  have hreason : ∀ reason event kvs,
      Ambient h ((h.closedAs c reason).logged event kvs) := fun reason event kvs =>
    .quiet ((Quiet.closedAs h c reason).trans (.logged _ event kvs)) fun d =>
      suffix_updConn c h (f := fun k => if k.reason = .unknown then { k with reason := reason }
        else k) (by split <;> exact List.suffix_refl _) d
  have hdropped : Ambient h (h.dropped c) := .quiet (.dropped h c) fun d =>
    suffix_updConn c h (f := fun k => { k with closed := true }) (List.suffix_refl _) d
  cases hm with
  | received hk hsend => exact hupd _ rfl rfl (hsend ▸ List.suffix_cons _ _)
  | accounted hk => exact hupd _ rfl rfl (List.suffix_refl _)
  | refused hk hr => exact hupd _ rfl rfl (List.suffix_refl _)
  | failed hk kvs => exact hreason _ _ _
  | unponged hk kvs => exact hreason _ _ _
  | dropped hk => exact hdropped
  | left hk => exact hdropped
  | _ => exact hsame

end WritePump

/-! ### What is queued -/

/-- The frame that the section queues for the connection. -/
def queuedBy (c : ConnID) (e : HubSection) : Option Reply :=
  match e.label with
  | .select d r =>
    if d = c ∧ (e.post.conns c).send = (e.pre.conns c).send ++ [r] then some r else none
  | _ => none

/-- The frames queued for the connection, in the order of the run. -/
def queuedFor (c : ConnID) (H : HubHistory) : List Reply := H.filterMap fun m => queuedBy c m.2

variable {P : Platform} {c : ConnID}

theorem queuedFor_concat (H : HubHistory) (m : Option ConnID × HubSection) :
    queuedFor c (H ++ [m]) = queuedFor c H ++ (queuedBy c m.2).toList := by
  unfold queuedFor
  rw [List.filterMap_append]
  cases hq : queuedBy c m.2 <;> simp [hq]

theorem queuedBy_of_length {e : HubSection}
    (h : (e.post.conns c).send.length ≤ (e.pre.conns c).send.length) : queuedBy c e = none := by
  unfold queuedBy
  split
  next d r hl =>
    refine if_neg fun hq => ?_
    rw [hq.2, List.length_append, List.length_singleton] at h
    exact Nat.not_succ_le_self _ h
  next => rfl

/-- A section that leaves the queue alone. -/
theorem queuedBy_of_same {e : HubSection} (h : (e.post.conns c).send = (e.pre.conns c).send) :
    (e.post.conns c).send = (e.pre.conns c).send ++ (queuedBy c e).toList := by
  rw [queuedBy_of_length (h ▸ le_rfl), h]
  simp

/-- Read loops only append to a queue, and what they append is what they queue. -/
theorem Act.queuedBy {S : Scope} {d : ConnID} {e : HubSection} (he : Act d S e)
    (hw : ∀ f, S.writes f → ∀ k, (f k).send = k.send) (hd : ∀ e, S.does e → Task P d e) :
    (e.post.conns c).send = (e.pre.conns c).send ++ (Dap.queuedBy c e).toList := by
  have hsame : ∀ {label : Label} {pick : Bool} (s : Hub) (f : Conn → Conn) (d' : ConnID),
      (∀ k, (f k).send = k.send) → let e : HubSection := ⟨label, s, s.updConn d' f, pick⟩
      (e.post.conns c).send = (e.pre.conns c).send ++ (Dap.queuedBy c e).toList :=
    fun s f d' hf => queuedBy_of_same (s.updConn_send hf d' c)
  cases he with
  | @wrote s pick f hf => exact hsame s f d (hw f hf)
  | @reserved s pick d' r' hs =>
    exact hsame s (fun k => { k with queued := k.queued + r'.length }) d' fun _ => rfl
  | @released s pick d' r' hs =>
    exact hsame s (fun k => { k with queued := k.queued - r'.length }) d' fun _ => rfl
  | @pushed s pick d' r' hs hroom =>
    by_cases hdc : d' = c
    · subst hdc
      change ((s.updConn d' fun k => { k with send := k.send ++ [r'] }).conns d').send = _
      simp [Dap.queuedBy]
    · exact queuedBy_of_same (by rw [s.updConn_conns_of_ne _ (Ne.symm hdc)])
  | @closedAs s pick d' reason =>
    refine hsame s (fun k => if k.reason = .unknown then { k with reason := reason } else k)
      d' fun k => ?_
    split
    · rfl
    · rfl
  | @dropped s pick d' => exact hsame s (fun k => { k with closed := true }) d' fun _ => rfl
  | @rejected s pick r' => exact hsame s (fun k => { k with rejectCh := some r' }) d fun _ => rfl
  | @stored s pick id f hf => exact queuedBy_of_same (by rw [Hub.enqueueLocked_frame])
  | other he => exact queuedBy_of_same ((hd _ he).send c)
  | _ => exact queuedBy_of_same rfl

/-! ### Runs -/

/-- The pump has come to `k` in the course of the history: nobody but it takes frames out of the
queue. -/
inductive Pumped (c : ConnID) : HubHistory → WritePump → Prop where
  | started : Pumped c [] {}
  | other {H k} (hk : Pumped c H k) (m : Option ConnID × HubSection)
      (hm : m.1 = none → (m.2.post.conns c).send = (m.2.pre.conns c).send) : Pumped c (H ++ [m]) k
  | moved {H k k' ev} (hk : Pumped c H k) (label pre post pick)
      (hs : k.step c pre ev = some (k', post)) :
      Pumped c (H ++ [(none, ⟨label, pre, post, pick⟩)]) k'

/-- What the pump keeps: the frames that were queued are on the wire, in its hands or in the queue,
in this order; a refusal is the last that is written, and no pump returns without closing. -/
structure PumpInvariant (c : ConnID) (queued : List Reply) (k : WritePump) (h : Hub) : Prop where
  order : ∃ sent, k.wire = sent ++ k.refusal.toList ∧
    queued = sent ++ k.unwritten ++ (h.conns c).send
  last : k.refusal.isSome = true → k.stage = .refused ∨ k.cut = true
  closed : k.cut = true → (h.conns c).closed = true
  finished : ∀ unsent, k.stage = .finished unsent → k.cut = true

theorem PumpInvariant.fed {queued : List Reply} {k : WritePump} {h h' : Hub}
    (hc : PumpInvariant c queued k h) {rs : List Reply}
    (hsend : (h'.conns c).send = (h.conns c).send ++ rs)
    (hclosed : (h.conns c).closed = true → (h'.conns c).closed = true) :
    PumpInvariant c (queued ++ rs) k h' := by
  obtain ⟨sent, hwire, hq⟩ := hc.order
  refine ⟨⟨sent, hwire, ?_⟩, hc.last, fun hcut => hclosed (hc.closed hcut), hc.finished⟩
  rw [hsend, hq]
  simp only [List.append_assoc]

theorem PumpInvariant.moved {queued : List Reply} {k k' : WritePump} {h h' : Hub}
    (hc : PumpInvariant c queued k h) (hm : WritePump.Moves c k h k' h') :
    PumpInvariant c queued k' h' := by
  obtain ⟨⟨sent, hwire, hq⟩, hlast, hclosed, hfin⟩ := hc
  have hcut : k.stage ≠ .refused → k.refusal.isSome = true → k.cut = true := fun hne hr =>
    (hlast hr).resolve_left hne
  -- nothing is written after a refusal
  have hnone : k.stage ≠ .refused → k.cut = false → k.refusal = none := by
    intro hne hopen
    cases hr : k.refusal with
    | none => rfl
    | some r =>
      rw [hcut hne (by rw [hr]; rfl)] at hopen
      cases hopen
  have hupd : ∀ f : Conn → Conn, (f (h.conns c)).closed = (h.conns c).closed →
      k.cut = true → ((h.updConn c f).conns c).closed = true := fun f hf hk => by
    rw [h.updConn_conns_self, hf]
    exact hclosed hk
  unfold WritePump.unwritten at hq
  cases hm with
  | @received r rest hk hsend =>
    rw [hk] at hq
    refine ⟨⟨sent, hwire, ?_⟩, fun hr => .inr (hcut (by rw [hk]; exact PumpStage.noConfusion) hr),
      hupd _ rfl, fun _ h => PumpStage.noConfusion h⟩
    rw [h.updConn_conns_self, hq, hsend]
    simp [WritePump.unwritten]
  | @wrote r hk hopen =>
    have hno := hnone (by rw [hk]; exact PumpStage.noConfusion) hopen
    rw [hk] at hq
    rw [hno] at hwire
    refine ⟨⟨sent ++ [r], ?_, ?_⟩, fun hr => ?_, hclosed, fun _ h => PumpStage.noConfusion h⟩
    · simp [hwire, hno]
    · rw [hq]
      simp [WritePump.unwritten]
    · rw [show k.refusal = none from hno] at hr
      cases hr
  | @failed r hk kvs =>
    rw [hk] at hq
    refine ⟨⟨sent, hwire, ?_⟩, fun hr => .inr (hcut (by rw [hk]; exact PumpStage.noConfusion) hr),
      fun hc => ?_, fun _ h => PumpStage.noConfusion h⟩
    · rw [hq]
      change _ = sent ++ [r] ++ ((h.closedAs c .writeFail).conns c).send
      rw [WritePump.send_closedAs]
    · change ((h.closedAs c .writeFail).conns c).closed = true
      exact (Quiet.closedAs h c _).closed c (hclosed hc)
  | @accounted r hk =>
    rw [hk] at hq
    refine ⟨⟨sent, hwire, ?_⟩, fun hr => .inr (hcut (by rw [hk]; exact PumpStage.noConfusion) hr),
      hupd _ rfl, fun _ h => PumpStage.noConfusion h⟩
    rw [h.updConn_conns_self, hq]
    rfl
  | @refused r hk hr =>
    rw [hk] at hq
    refine ⟨⟨sent, hwire, ?_⟩, fun hr => .inr (hcut (by rw [hk]; exact PumpStage.noConfusion) hr),
      hupd _ rfl, fun _ h => PumpStage.noConfusion h⟩
    rw [h.updConn_conns_self, hq]
    rfl
  | @answered r hk hopen =>
    have hno := hnone (by rw [hk]; exact PumpStage.noConfusion) hopen
    rw [hk] at hq
    rw [hno] at hwire
    refine ⟨⟨sent, ?_, hq⟩, fun _ => .inl rfl, hclosed, fun _ h => PumpStage.noConfusion h⟩
    rw [hwire]
    simp
  | @unanswered r hk =>
    rw [hk] at hq
    exact ⟨⟨sent, hwire, hq⟩, fun _ => .inl rfl, hclosed, fun _ h => PumpStage.noConfusion h⟩
  | dropped hk =>
    rw [hk] at hq
    refine ⟨⟨sent, hwire, ?_⟩, fun _ => .inr rfl, fun _ => h.closed_dropped c,
      fun _ h => PumpStage.noConfusion h⟩
    rw [hq]
    simp [Hub.dropped, WritePump.unwritten]
  | ticked hk =>
    rw [hk] at hq
    exact ⟨⟨sent, hwire, hq⟩, fun hr => .inr (hcut (by rw [hk]; exact PumpStage.noConfusion) hr),
      hclosed, fun _ h => PumpStage.noConfusion h⟩
  | ponged hk =>
    rw [hk] at hq
    exact ⟨⟨sent, hwire, hq⟩, fun hr => .inr (hcut (by rw [hk]; exact PumpStage.noConfusion) hr),
      hclosed, fun _ h => PumpStage.noConfusion h⟩
  | unponged hk kvs =>
    rw [hk] at hq
    refine ⟨⟨sent, hwire, ?_⟩, fun hr => .inr (hcut (by rw [hk]; exact PumpStage.noConfusion) hr),
      fun hc => ?_, fun _ h => PumpStage.noConfusion h⟩
    · rw [hq]
      change _ = sent ++ [] ++ ((h.closedAs c .pingTimeout).conns c).send
      rw [WritePump.send_closedAs]
    · change ((h.closedAs c .pingTimeout).conns c).closed = true
      exact (Quiet.closedAs h c _).closed c (hclosed hc)
  | sawClosed hk hcl =>
    rw [hk] at hq
    exact ⟨⟨sent, hwire, hq⟩, fun hr => .inr (hcut (by rw [hk]; exact PumpStage.noConfusion) hr),
      hclosed, fun _ h => PumpStage.noConfusion h⟩
  | @left unsent hk =>
    rw [hk] at hq
    refine ⟨⟨sent, hwire, ?_⟩, fun _ => .inr rfl, fun _ => h.closed_dropped c, fun _ _ => rfl⟩
    rw [hq]
    simp [Hub.dropped, WritePump.unwritten]
  | cutOff hcl =>
    exact ⟨⟨sent, hwire, hq⟩, fun _ => .inr rfl, fun _ => hcl, fun _ _ => rfl⟩

variable {messages : ConnID → List Message} {H H0 : HubHistory} {h : Hub}

/-- Over any run from the upgrade of the connection, the socket gets the frames that were queued for
it, in the order in which they were queued, each once; what is missing is in the hands of the pump
or waits in the queue. The refusal of a hello is the last that is written, and a pump that has
returned leaves the connection closed. -/
theorem wire_in_order {o : Option ConnID × HubSection} {auth : AuthKind} {boundName : String}
    {k : WritePump} (hrun : HubRun P messages (H0 ++ o :: H) h)
    (ho : o.2.post = o.2.pre.openConn c auth boundName) (hk : Pumped c H k) :
    (∃ sent, k.wire = sent ++ k.refusal.toList ∧
      queuedFor c H = sent ++ k.unwritten ++ (h.conns c).send) ∧
    (k.refusal.isSome = true → k.stage = .refused ∨ (h.conns c).closed = true) ∧
    ∀ unsent, k.stage = .finished unsent → (h.conns c).closed = true := by
  have hpump : PumpInvariant c (queuedFor c H) k h ∧ (h.conns c).stage ≠ .absent := by
    induction hk generalizing h with
    | started =>
      obtain ⟨-, rfl⟩ := hrun.of_concat
      rw [ho]
      unfold Hub.openConn
      refine ⟨⟨⟨[], rfl, ?_⟩, fun hr => Bool.noConfusion hr, fun hcut => Bool.noConfusion hcut,
        fun _ hk => PumpStage.noConfusion hk⟩, ?_⟩
      · rw [Hub.updConn_conns_self]
        rfl
      · rw [Hub.updConn_conns_self]
        exact Stage.noConfusion
    | @other H k hk m hm ih =>
      rw [← List.cons_append, ← List.append_assoc] at hrun
      obtain ⟨hbefore, rfl⟩ := hrun.of_concat
      obtain ⟨hc, hst⟩ := ih hbefore
      obtain ⟨who, hs⟩ := hrun.step (m := m) (by simp)
      obtain ⟨hst', hclosed⟩ := hs.stays hst
      rw [queuedFor_concat]
      refine ⟨hc.fed ?_ hclosed, hst'⟩
      obtain ⟨_ | d, e⟩ := m
      · exact queuedBy_of_same (hm rfl)
      · exact hrun.last_act.queuedBy (fun f hf => hf.send) fun _ ht => ht
    | @moved H k k' ev hk label pre post pick hs ih =>
      rw [← List.cons_append, ← List.append_assoc] at hrun
      obtain ⟨hbefore, rfl⟩ := hrun.of_concat
      obtain ⟨hc, hst⟩ := ih hbefore
      have hmoves := WritePump.step_moves c hs
      obtain ⟨who, hstep⟩ := hmoves.ambient.step (P := P)
      have hnone : queuedBy c ⟨label, pre, h, pick⟩ = none :=
        queuedBy_of_length hmoves.ambient.send_length
      rw [queuedFor_concat, hnone, Option.toList_none, List.append_nil]
      exact ⟨hc.moved hmoves, (hstep.stays hst).1⟩
  obtain ⟨⟨horder, hlast, hclosed, hfin⟩, -⟩ := hpump
  exact ⟨horder, fun hr => (hlast hr).imp_right hclosed, fun unsent hk => hclosed (hfin unsent hk)⟩

/-- The pump waits while the read loops run. -/
theorem Pumped.waits {k : WritePump} (hk : Pumped c H k) (d : ConnID) (t : List HubSection) :
    Pumped c (H ++ History.of d t) k := by
  induction t generalizing H with
  | nil => simpa [History.of] using hk
  | cons e t ih =>
    have hnext := ih (hk.other (some d, e) fun hm => by cases hm)
    rwa [List.append_assoc] at hnext

/-- The pump runs alone. -/
theorem Pumped.runs {o : Option ConnID × HubSection} {k k' : WritePump} {h' : Hub}
    (hrun : HubRun P messages (H0 ++ o :: H) h) (hk : Pumped c H k) (evs : List PumpEvent)
    (hs : WritePump.play c evs (k, h) = some (k', h')) :
    ∃ H', HubRun P messages (H0 ++ o :: H') h' ∧ Pumped c H' k' := by
  induction evs generalizing H h k with
  | nil =>
    obtain ⟨rfl, rfl⟩ := Prod.mk.inj (Option.some.inj hs)
    exact ⟨H, hrun, hk⟩
  | cons ev evs ih =>
    rw [WritePump.play, List.foldlM_cons] at hs
    obtain ⟨⟨k1, h1⟩, hs1, hs⟩ := Option.bind_eq_some_iff.mp hs
    have hmoved := hrun.acted (e := ⟨.config, h, h1, true⟩) (WritePump.step_moves c hs1).ambient
    rw [List.append_assoc, List.cons_append] at hmoved
    exact ih hmoved (hk.moved .config h h1 true hs1) hs

/-- A pump that has written the welcome, and fails to write the message that follows it. -/
theorem wire_in_order_sample : ∃ messages o H h k,
    HubRun lenientPlatform messages ([] ++ o :: H) h ∧ Pumped 0 H k ∧
    k.wire.length = 1 ∧ k.unwritten.length = 1 ∧
    ∃ sent, k.wire = sent ++ k.refusal.toList ∧
      queuedFor 0 H = sent ++ k.unwritten ++ (h.conns 0).send := by
  have hruns : (alone (serve lenientPlatform 0 "" [wire (sampleHello 0), wire selfDM])
      (({} : Hub).openConn 0 .master "")).bind (fun r =>
        (WritePump.play 0 [.receive, .wrote true, .accounted, .receive, .wrote false]
          ({}, r.2.state)).map fun x =>
            decide (x.1.wire.length = 1) && decide (x.1.unwritten.length = 1)) = some true := by
    decide +kernel
  obtain ⟨⟨_, w⟩, hw, hruns⟩ := Option.bind_eq_some_iff.mp hruns
  obtain ⟨⟨k, h⟩, hpumps, hends⟩ := Option.map_eq_some_iff.mp hruns
  obtain ⟨hwire, hunwritten⟩ := Bool.and_eq_true_iff.mp hends
  have hwaits := (Pumped.started (c := 0)).waits 0 w.trace
  rw [List.nil_append] at hwaits
  have hserved : HubRun lenientPlatform _ ([] ++ _ :: History.of 0 w.trace) w.state :=
    HubRun.single hw
  obtain ⟨H, hrun, hk⟩ := Pumped.runs hserved hwaits _ hpumps
  exact ⟨_, _, H, h, k, hrun, hk, of_decide_eq_true hwire, of_decide_eq_true hunwritten,
    (wire_in_order hrun rfl hk).1⟩

end Dap
