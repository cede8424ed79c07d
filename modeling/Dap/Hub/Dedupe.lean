import Dap.Hub.Acts
import Dap.Hub.Fanout
import Dap.Lib.Ring

/-! Which sends of a connection are rejected as replays. -/
namespace Dap
open Proc

variable {P : Platform} {c : ConnID}

/-! ### The cache of accepted ids -/

abbrev SendRing := Ring String sendIDCap

/-- The cache holds the ring `r` for the key `pub`. -/
def SendIDCache.Holds (s : SendIDCache) (pub : String) (r : SendRing) : Prop :=
  s.ids[pub]?.getD [] = r.items ∧ s.next[pub]?.getD 0 = r.next

namespace SendIDCache

variable {s : SendIDCache} {pub : String} {r : SendRing}

theorem holds_empty (pub : String) : Holds {} pub (.empty (by decide)) := by
  simp [Holds, Ring.empty]

theorem Holds.seen_iff (h : s.Holds pub r) (id : String) :
    s.seen pub id = true ↔ id ∈ r.window := by
  unfold seen
  rw [r.mem_window, h.1, decide_eq_true_iff]

theorem Holds.add_self (h : s.Holds pub r) (id : String) :
    (s.add pub id).Holds pub (r.push id) := by
  obtain ⟨hids, hnext⟩ := h
  unfold add Ring.push
  dsimp only
  rw [hids]
  split
  next hroom =>
    refine ⟨?_, hnext⟩
    rw [GoMap.getElem?_insert_ite, if_pos rfl]
    rfl
  next hfull =>
    rw [hnext]
    refine ⟨?_, ?_⟩
    · rw [GoMap.getElem?_insert_ite, if_pos rfl]
      rfl
    · rw [GoMap.getElem?_insert_ite, if_pos rfl]
      rfl

theorem Holds.add_of_ne (h : s.Holds pub r) {pub' : String} (hne : pub' ≠ pub) (id : String) :
    (s.add pub' id).Holds pub r := by
  obtain ⟨hids, hnext⟩ := h
  unfold add
  dsimp only
  split
  · refine ⟨?_, hnext⟩
    rwa [GoMap.getElem?_insert_ite, if_neg hne]
  · refine ⟨?_, ?_⟩
    · rwa [GoMap.getElem?_insert_ite, if_neg hne]
    · rwa [GoMap.getElem?_insert_ite, if_neg hne]

/-- The ids of the adds for `pub`, in their order. -/
def addedFor (pub : String) (adds : List (String × String)) : List String :=
  (adds.filter fun a => a.1 = pub).map Prod.snd

def run (adds : List (String × String)) : SendIDCache := adds.foldl (fun s a => s.add a.1 a.2) {}

theorem addedFor_concat (adds : List (String × String)) (a : String × String) :
    addedFor pub (adds ++ [a]) = addedFor pub adds ++ if a.1 = pub then [a.2] else [] := by
  unfold addedFor
  rw [List.filter_append, List.map_append]
  by_cases ha : a.1 = pub <;> simp [ha]

theorem run_holds (pub : String) (adds : List (String × String)) :
    ∃ r : SendRing, (run adds).Holds pub r ∧ r.window = (addedFor pub adds).rtake sendIDCap := by
  induction adds using List.reverseRecOn with
  | nil =>
    refine ⟨_, holds_empty pub, ?_⟩
    simp [addedFor, Ring.window, Ring.empty]
  | append_singleton adds a ih =>
    obtain ⟨r, hold, hwindow⟩ := ih
    have hrun : run (adds ++ [a]) = (run adds).add a.1 a.2 := by
      rw [run, List.foldl_append]
      rfl
    rw [hrun, addedFor_concat]
    by_cases ha : a.1 = pub
    · subst ha
      refine ⟨r.push a.2, hold.add_self a.2, ?_⟩
      rw [if_pos rfl, Ring.window_push, hwindow, Ring.rtake_append_rtake]
    · rw [if_neg ha, List.append_nil]
      exact ⟨r, hold.add_of_ne ha a.2, hwindow⟩

/-- The cache remembers the last ids of each key, and a key only its own. -/
theorem seen_run_iff (adds : List (String × String)) (pub id : String) :
    ((run adds).seen pub id = true ↔
        id ∈ (addedFor pub adds).rtake (min (addedFor pub adds).length sendIDCap)) ∧
      ∀ pub' id' : String, pub' ≠ pub →
        ((run adds).add pub' id').seen pub id = (run adds).seen pub id := by
  obtain ⟨r, hold, hwindow⟩ := run_holds pub adds
  constructor
  · have hmin : ∀ n cap : ℕ, n - min n cap = n - cap := by
      intro n cap
      omega
    rw [List.rtake, hmin, ← List.rtake, ← hwindow]
    exact hold.seen_iff id
  · intro pub' id' hne
    rw [Bool.eq_iff_iff, (hold.add_of_ne hne id').seen_iff, hold.seen_iff]

end SendIDCache

/-- Every cache that the hub can reach consists of rings. -/
theorem Reachable.sendRing {h : Hub} (hr : Reachable P h) (pub : String) :
    ∃ r : SendRing, h.sendIDs.Holds pub r := by
  induction hr with
  | fresh hf =>
    rw [hf.sendIDs]
    exact ⟨_, SendIDCache.holds_empty pub⟩
  | @step h h' who _ hs ih =>
    obtain ⟨r, hold⟩ := ih
    cases hs with
    | quiet hq => exact ⟨r, hq.sendIDs ▸ hold⟩
    | opened d auth boundName hs => exact ⟨r, hold⟩
    | greeted d f raw hs hv hn => exact ⟨r, hold⟩
    | registered d hs => exact ⟨r, (h.registerLocked_spec d).sendIDs ▸ hold⟩
    | touched d hs => rw [h.touchLastSeenLocked_frame]; exact ⟨r, hold⟩
    | joined d name chanPub hs => rw [Hub.joinLocked_frame]; exact ⟨r, hold⟩
    | enqueued d agentID f hs => rw [Hub.enqueueLocked_frame]; exact ⟨r, hold⟩
    | drained d hs => exact ⟨r, hold⟩
    | latched d key hs =>
      by_cases hpub : (h.conns d).pubkey = pub
      · subst hpub
        exact ⟨r.push key, hold.add_self key⟩
      · exact ⟨r, hold.add_of_ne hpub key⟩
    | enrolled d op hash hs ha => exact ⟨r, hold⟩
    | left d _ hs hc hd =>
      obtain ⟨h1, rfl, ⟨-, rfl⟩ | ⟨-, e, -, rfl⟩⟩ := Hub.deregisterLocked_spec hd <;>
        exact ⟨r, hold⟩
    | evicted id =>
      refine ⟨r, ?_⟩
      have hsame : (h.adminEvictLocked id).2.sendIDs = h.sendIDs := by
        unfold Hub.adminEvictLocked
        dsimp only
        split
        · rfl
        split
        · rfl
        split
        · split <;> rfl
        · rfl
      rwa [hsame]
    | aclSet name allowed => exact ⟨r, hold⟩

/-! ### One send -/

/-- The ring of the sender on `c`, and its key, are left alone. -/
def KeepsRing (c : ConnID) (h h' : Hub) : Prop :=
  (∀ r, h.sendIDs.Holds (h.conns c).pubkey r → h'.sendIDs.Holds (h.conns c).pubkey r) ∧
    (h'.conns c).pubkey = (h.conns c).pubkey

theorem KeepsRing.refl (h : Hub) : KeepsRing c h h := ⟨fun _ hold => hold, rfl⟩

/-- The ring of the sender and its pending answer are left alone. -/
def KeepsSend (c : ConnID) (h h' : Hub) : Prop :=
  KeepsRing c h h' ∧ (h'.conns c).errCode = (h.conns c).errCode

/-- The accepted ids have been looked at. -/
def LookedUp (t : List HubSection) : Prop := ∃ e ∈ t, e.label = .sendIDs

instance (t : List HubSection) : Decidable (LookedUp t) :=
  inferInstanceAs (Decidable (∃ e ∈ t, e.label = .sendIDs))

/-- The ring is `r`, the pending answer satisfies `ok`, and the sections so far satisfy `Q`. -/
def Sending (c : ConnID) (pub : String) (r : SendRing) (Q : List HubSection → Prop)
    (ok : String → Prop) : Assertion Hub Label :=
  fun past s => Q past ∧ s.sendIDs.Holds pub r ∧ (s.conns c).pubkey = pub ∧
    ok (s.conns c).errCode

/-- How a send with the given key has gone. -/
structure Sent (c : ConnID) (pub key : String) (r : SendRing) (t : List HubSection) (s : Hub) :
    Prop where
  ring : s.sendIDs.Holds pub (if Accepted t then r.push key else r)
  pubkey : (s.conns c).pubkey = pub
  replayed : LookedUp t → ((s.conns c).errCode = codeReplay ↔ key ∈ r.window)
  accepted : Accepted t → LookedUp t ∧ key ∉ r.window

/-- Nothing but queueing, and refusals that are no replays. -/
def delivering : Scope where
  writes f := ∃ code, code ≠ codeReplay ∧ f = setCode code
  sends _ _ := True
  stores _ _ := True

section Call

variable {R : Hub → Hub → Prop} {pub : String} {r : SendRing} {Q : List HubSection → Prop}
  {ok : String → Prop} {α : Type}

theorem stable_sending (hR : ∀ s s', R s s' → KeepsSend c s s') (past : List HubSection) :
    Stable R (Sending c pub r Q ok past) := by
  rintro s s' hss ⟨hQ, hring, rfl, hok⟩
  obtain ⟨⟨hkeep, hpub⟩, hcode⟩ := hR s s' hss
  exact ⟨hQ, hkeep r hring, hpub, hcode ▸ hok⟩

/-- A program without critical sections moves neither the ring nor what was looked up. -/
theorem sending_emits {S : Scope} {p : HubProc α} (hp : Emits (Act c S) p)
    (hR : ∀ s s', R s s' → KeepsSend c s s') (hd : ∀ e, ¬ S.does e)
    (hw : ∀ f, S.writes f → ∃ code, ok code ∧ f = setCode code)
    (hQ : ∀ past e, e.label ≠ .sendIDs → e.label ≠ .latch → Q past → Q (past ++ [e])) :
    HubTriple R (Sending c pub r Q ok) p fun _ => Sending c pub r Q ok := by
  refine (hp R (Sending c pub r Q ok) (stable_sending hR) ?_).mono_guarantee fun _ _ _ => trivial
  rintro past e he ⟨hQ', hring, hpub, hok⟩
  obtain ⟨hlook, hlatch, hids⟩ := he.sendIDs hd
  have hconn := he.keeps (c := c) (φ := fun k => k.pubkey = pub ∧ ok k.errCode) ?_ ?_ ?_ ⟨hpub, hok⟩
  · exact ⟨hQ past e hlook hlatch hQ', hids ▸ hring, hconn⟩
  · rintro k k' hk h
    rw [hk]
    exact h
  · rintro - f hf k ⟨hk, -⟩
    obtain ⟨code, hcode, rfl⟩ := hw f hf
    exact ⟨hk, hcode⟩
  · exact fun e he _ => absurd he (hd e)

/-- Before the accepted ids are looked at. -/
def Untold (t : List HubSection) : Prop := ∀ e ∈ t, e.label ≠ .sendIDs ∧ e.label ≠ .latch

/-- After the look, before an id is latched. -/
def Looked (t : List HubSection) : Prop := LookedUp t ∧ Unlatched t

theorem Untold.concat (past : List HubSection) (e : HubSection) (hlook : e.label ≠ .sendIDs)
    (hlatch : e.label ≠ .latch) (h : Untold past) : Untold (past ++ [e]) := by
  intro x hx
  rcases List.mem_append.mp hx with hx | hx
  · exact h x hx
  · rw [List.mem_singleton.mp hx]
    exact ⟨hlook, hlatch⟩

theorem Looked.concat (past : List HubSection) (e : HubSection) (_ : e.label ≠ .sendIDs)
    (hlatch : e.label ≠ .latch) (h : Looked past) : Looked (past ++ [e]) := by
  obtain ⟨⟨x, hx, hl⟩, hun⟩ := h
  refine ⟨⟨x, List.mem_append_left _ hx, hl⟩, ?_⟩
  intro y hy
  rcases List.mem_append.mp hy with hy | hy
  · exact hun y hy
  · rw [List.mem_singleton.mp hy]
    exact hlatch

theorem Sent.of_untold {key : String} {past : List HubSection} {s : Hub}
    (h : Sending c pub r Untold ok past s) : Sent c pub key r past s := by
  obtain ⟨hQ, hring, hpub, -⟩ := h
  have hun : ¬ Accepted past := fun ⟨e, he, hl⟩ => (hQ e he).2 hl
  have hno : ¬ LookedUp past := fun ⟨e, he, hl⟩ => (hQ e he).1 hl
  refine ⟨?_, hpub, fun h => absurd h hno, fun h => absurd h hun⟩
  rwa [if_neg hun]

theorem Sent.of_looked {key : String} {past : List HubSection} {s : Hub}
    (hok : ∀ code, ok code → (code = codeReplay ↔ key ∈ r.window))
    (h : Sending c pub r Looked ok past s) : Sent c pub key r past s := by
  obtain ⟨hQ, hring, hpub, hcode⟩ := h
  have hun : ¬ Accepted past := hQ.2.not_accepted
  refine ⟨?_, hpub, fun _ => hok _ hcode, fun h => absurd h hun⟩
  rwa [if_neg hun]

theorem sendErr_sending (hR : ∀ s s', R s s' → KeepsSend c s s')
    (hQ : ∀ past e, e.label ≠ .sendIDs → e.label ≠ .latch → Q past → Q (past ++ [e]))
    (code msg : String) :
    HubTriple R (Sending c pub r Q ok) (sendErr c code msg)
      fun _ => Sending c pub r Q (· = code) := by
  have hrest : Emits (Act c ⟨fun _ => False, fun _ _ => True, fun _ _ => True, fun _ => False⟩) (do
      logf "err" fun h => [("agent", (h.conns c).logAgent), ("code", code), ("msg", msg)]
      let _ ← sendFrame c (.frame (errorFrame code msg))) :=
    Emits.bind (Act.logf _ _) fun _ => Emits.bind (Act.sendFrame trivial) fun _ => Emits.pure _
  unfold sendErr
  refine Triple.bind (Triple.modify (stable_sending hR) ?_) fun _ =>
    sending_emits hrest hR (fun _ he => he) (fun _ hf => hf.elim) hQ
  rintro past s pick ⟨hQ', hring, hpub, -⟩
  refine ⟨trivial, hQ past _ Label.noConfusion Label.noConfusion hQ', hring, ?_, ?_⟩
  · exact (congrArg Conn.pubkey (s.updConn_conns_self c _)).trans hpub
  · exact congrArg Conn.errCode (s.updConn_conns_self c _)

/-- Whether a send is a replay is decided by the ring at the look, and only an accepted send is
added to it. -/
theorem handleSend_sent (hR : ∀ s s', R s s' → KeepsSend c s s') (f : Frame) (raw : Raw) :
    HubTriple R (Sending c pub r Untold (· = "")) (handleSend P c f raw)
      fun _ => Sent c pub (sendKey f) r := by
  have hrefuse : ∀ code msg, HubTriple R (Sending c pub r Untold (· = "")) (sendErr c code msg)
      fun _ => Sent c pub (sendKey f) r := fun code msg =>
    (sendErr_sending hR Untold.concat code msg).mono (fun _ _ hs => hs) fun _ _ _ => Sent.of_untold
  unfold handleSend
  refine Triple.bind (M := fun a past s => a.pubkey = pub ∧ Sending c pub r Untold (· = "") past s)
    (Triple.read (stable_sending hR) ?_) fun a => Triple.assume fun ha => ?_
  · rintro past s pick ⟨hQ', hring, hpub, hcode⟩
    exact ⟨trivial, hpub, Untold.concat past _ Label.noConfusion Label.noConfusion hQ', hring, hpub,
      hcode⟩
  split
  · exact hrefuse _ _
  refine Triple.bind (M := fun _ => Sending c pub r Untold (· = ""))
    (Triple.read (stable_sending hR) ?_) fun now => ?_
  · rintro past s pick ⟨hQ', hring, hpub, hcode⟩
    exact ⟨trivial, Untold.concat past _ Label.noConfusion Label.noConfusion hQ', hring, hpub,
      hcode⟩
  split
  · exact hrefuse _ _
  split
  · exact hrefuse _ _
  refine Triple.bind (M := fun used past s => (used = true ↔ sendKey f ∈ r.window) ∧
    Sending c pub r Looked (· = "") past s) (Triple.read (stable_sending hR) ?_) fun used =>
      Triple.assume fun hused => ?_
  · rintro past s pick ⟨hQ', hring, hpub, hcode⟩
    refine ⟨trivial, ?_, ⟨⟨_, List.mem_append_right _ (List.mem_singleton_self _), rfl⟩, ?_⟩, hring,
      hpub, hcode⟩
    · rw [ha]
      exact hring.seen_iff _
    · intro e he
      rcases List.mem_append.mp he with he | he
      · exact (hQ' e he).2
      · rw [List.mem_singleton.mp he]
        exact Label.noConfusion
  split
  next hyes =>
    refine (sendErr_sending hR Looked.concat codeReplay _).mono (fun _ _ hs => hs) ?_
    intro _ past s hs
    refine Sent.of_looked ?_ hs
    rintro code rfl
    exact ⟨fun _ => hused.mp hyes, fun _ => rfl⟩
  next hno =>
    have hfresh : sendKey f ∉ r.window := fun hmem => hno (hused.mpr hmem)
    have hdeliver : Emits (Act c delivering) (deliver P c f) :=
      Act.deliver (fun code hc => ⟨⟨code, hc, rfl⟩, fun _ => trivial⟩) (fun _ _ => trivial)
        fun _ _ => trivial
    have hwrites : ∀ f, delivering.writes f → ∃ code, code ≠ codeReplay ∧ f = setCode code :=
      fun f hf => hf
    refine Triple.bind (M := fun _ => Sending c pub r Looked (· ≠ codeReplay))
      ((sending_emits hdeliver hR (fun _ he => he) hwrites Looked.concat).mono ?_
        fun _ _ _ hs => hs)
      fun accepted => ?_
    · rintro past s ⟨hQ', hring, hpub, hcode⟩
      exact ⟨hQ', hring, hpub, hcode ▸ by decide⟩
    · split
      · refine Triple.modify (stable_sending hR) ?_
        rintro past s pick ⟨⟨⟨x, hx, hl⟩, -⟩, hring, hpub, hcode⟩
        have hacc : Accepted (past ++ [(⟨.latch, s, s.addSendID a.pubkey (sendKey f), pick⟩ :
            HubSection)]) := ⟨_, List.mem_append_right _ (List.mem_singleton_self _), rfl⟩
        refine ⟨trivial, ?_, hpub, fun _ => ⟨fun h => absurd h hcode, fun h => absurd h hfresh⟩,
          fun _ => ⟨⟨x, List.mem_append_left _ hx, hl⟩, hfresh⟩⟩
        rw [if_pos hacc, ha]
        exact hring.add_self _
      · refine Triple.pure fun past s hs => Sent.of_looked ?_ hs
        exact fun code hc => ⟨fun h => absurd h hc, fun h => absurd h hfresh⟩

end Call

/-! ### Runs of sends -/

/-- Where a send is routed. -/
inductive Destination where
  | agent (id : String)
  | channel (name : String)
  deriving DecidableEq

def Frame.destination (f : Frame) : Destination :=
  if f.to ≠ "" then .agent f.to else .channel f.channel

/-- The keys of the sends tell their destinations and ids apart, and nothing else. -/
def Separated (sends : List Frame) : Prop :=
  ∀ f ∈ sends, ∀ g ∈ sends, sendKey f = sendKey g ↔ f.destination = g.destination ∧ f.id = g.id

/-- One dispatched send. -/
structure SendCall where
  frame : Frame
  raw : Raw
  start : World Hub Label
  finish : World Hub Label

namespace SendCall

/-- The call runs from where no answer is pending. -/
structure Valid (P : Platform) (c : ConnID) (x : SendCall) : Prop where
  run : handleSend P c x.frame x.raw x.start = some ((), x.finish)
  rely : Relies (KeepsSend c) x.start.script
  untraced : x.start.trace = []
  unanswered : (x.start.state.conns c).errCode = ""

/-- The frame has passed the checks of its signature, its time and its id. -/
def Passes (x : SendCall) : Prop := LookedUp x.finish.trace

def Replayed (c : ConnID) (x : SendCall) : Prop := (x.finish.state.conns c).errCode = codeReplay

def accepted (x : SendCall) : Bool := decide (Accepted x.finish.trace)

/-- Somebody gets the frame, in a queue or in a mailbox. -/
def Delivers (x : SendCall) : Prop :=
  ∃ e ∈ x.finish.trace, ∃ (sender m : String) (conn : Option ConnID),
    reaches (routed sender x.frame) m conn e = true

end SendCall

/-- The frames of the accepted calls. -/
def acceptedFrames (calls : List SendCall) : List Frame :=
  (calls.filter SendCall.accepted).map SendCall.frame

/-- A sequence of sends on one connection, whatever else happens in between. -/
inductive Calls (P : Platform) (c : ConnID) : Hub → List SendCall → Prop where
  | nil {h} : Calls P c h []
  | cons {h x rest} (hk : KeepsRing c h x.start.state) (hx : x.Valid P c)
      (hrest : Calls P c x.finish.state rest) : Calls P c h (x :: rest)

/-- The ring of the sender on `c` holds the keys of the last of these sends. -/
def Remembers (c : ConnID) (h : Hub) (sends : List Frame) : Prop :=
  ∃ r : SendRing, h.sendIDs.Holds (h.conns c).pubkey r ∧
    r.window = (sends.map sendKey).rtake sendIDCap

theorem Remembers.of_keeps {h h' : Hub} {sends : List Frame} (hr : Remembers c h sends)
    (hk : KeepsRing c h h') : Remembers c h' sends := by
  obtain ⟨r, hold, hwin⟩ := hr
  exact ⟨r, by rw [hk.2]; exact hk.1 r hold, hwin⟩

/-- What is delivered has been accepted. -/
theorem SendCall.Valid.accepted_of_delivers {x : SendCall} (hx : x.Valid P c) (hd : x.Delivers) :
    x.accepted = true := by
  obtain ⟨e, he, sender, m, conn, hreach⟩ := hd
  have hmsg : (routed sender x.frame).op = "msg" := by
    unfold routed
    split <;> rfl
  exact decide_eq_true (Dap.accepted_of_delivers hx.untraced hx.run he
    ⟨_, m, conn, hmsg, hreach⟩)

/-- One call, from what the ring remembers. -/
theorem SendCall.Valid.outcome {x : SendCall} (hx : x.Valid P c) {sends : List Frame}
    (hr : Remembers c x.start.state sends) :
    Remembers c x.finish.state (sends ++ acceptedFrames [x]) ∧
      (x.Passes → (x.Replayed c ↔ sendKey x.frame ∈ (sends.map sendKey).rtake sendIDCap)) ∧
      (x.accepted = true → sendKey x.frame ∉ (sends.map sendKey).rtake sendIDCap) := by
  obtain ⟨r, hold, hwin⟩ := hr
  have hsent : HubTriple (KeepsSend c)
      (Sending c (x.start.state.conns c).pubkey r Untold (· = "")) (handleSend P c x.frame x.raw)
      fun _ => Sent c (x.start.state.conns c).pubkey (sendKey x.frame) r :=
    handleSend_sent (fun _ _ hR => hR) x.frame x.raw
  have hpre : Sending c (x.start.state.conns c).pubkey r Untold (· = "") x.start.trace
      x.start.state := by
    rw [hx.untraced]
    exact ⟨fun e he => absurd he (by simp), hold, rfl, hx.unanswered⟩
  obtain ⟨hring, hpub, hreplayed, haccepted⟩ := (hsent _ () _ hx.run hx.rely hpre).1
  rw [hwin] at hreplayed haccepted
  refine ⟨⟨_, by rw [hpub]; exact hring, ?_⟩, hreplayed,
    fun ha => (haccepted (of_decide_eq_true ha)).2⟩
  by_cases ha : Accepted x.finish.trace
  · have hframes : acceptedFrames [x] = [x.frame] := by simp [acceptedFrames, SendCall.accepted, ha]
    rw [if_pos ha, hframes, Ring.window_push, hwin, Ring.rtake_append_rtake, List.map_append]
    rfl
  · have hframes : acceptedFrames [x] = [] := by simp [acceptedFrames, SendCall.accepted, ha]
    rw [if_neg ha, hframes, List.append_nil, hwin]

theorem acceptedFrames_append (xs ys : List SendCall) :
    acceptedFrames (xs ++ ys) = acceptedFrames xs ++ acceptedFrames ys := by
  unfold acceptedFrames
  rw [List.filter_append, List.map_append]

/-- Before each call the ring remembers the sends accepted so far. -/
theorem Calls.remembers {h : Hub} {before after : List SendCall} {x : SendCall}
    (hcalls : Calls P c h (before ++ x :: after)) {earlier : List Frame}
    (hr : Remembers c h earlier) :
    x.Valid P c ∧ Remembers c x.start.state (earlier ++ acceptedFrames before) := by
  induction before generalizing h earlier with
  | nil =>
    cases hcalls with
    | cons hk hx hrest => exact ⟨hx, by simpa [acceptedFrames] using hr.of_keeps hk⟩
  | cons y before ih =>
    cases hcalls with
    | cons hk hy hrest =>
      have hnext := ih hrest (hy.outcome (hr.of_keeps hk)).1
      rw [List.append_assoc, ← acceptedFrames_append] at hnext
      exact hnext

/-- When the keys tell destinations and ids apart, a send is rejected as a replay exactly when one
of the last accepted sends had its destination and its id; and when moreover each id goes to one
destination, sends accepted with the same id are a whole window apart. -/
theorem send_replayed_iff {h : Hub} {calls : List SendCall} (hcalls : Calls P c h calls)
    {earlier : List Frame} (hr : Remembers c h earlier)
    (hsep : Separated (earlier ++ calls.map SendCall.frame)) :
    (∀ before x after, calls = before ++ x :: after → x.Passes →
      (x.Replayed c ↔ ∃ g ∈ (earlier ++ acceptedFrames before).rtake sendIDCap,
        g.destination = x.frame.destination ∧ g.id = x.frame.id)) ∧
    ((∀ f ∈ calls.map SendCall.frame, ∀ g ∈ calls.map SendCall.frame, f.id = g.id →
        f.destination = g.destination) →
      ∀ before x mid y after, calls = before ++ x :: (mid ++ y :: after) → x.Delivers →
        y.Delivers → x.frame.id = y.frame.id → sendIDCap ≤ (acceptedFrames mid).length) := by
  have hsub : ∀ xs : List SendCall, ∀ f ∈ acceptedFrames xs, f ∈ xs.map SendCall.frame := by
    intro xs f hf
    obtain ⟨x, hx, rfl⟩ := List.mem_map.mp hf
    exact List.mem_map_of_mem (List.mem_filter.mp hx).1
  constructor
  · rintro before x after rfl hpass
    obtain ⟨hx, hrem⟩ := hcalls.remembers hr
    rw [(hx.outcome hrem).2.1 hpass, List.rtake, List.length_map, ← List.map_drop, List.mem_map]
    have hmem : ∀ g ∈ (earlier ++ acceptedFrames before).rtake sendIDCap,
        (sendKey g = sendKey x.frame ↔
          g.destination = x.frame.destination ∧ g.id = x.frame.id) := by
      intro g hg
      apply hsep
      · rcases List.mem_append.mp (List.mem_of_mem_drop hg) with hg | hg
        · exact List.mem_append_left _ hg
        · refine List.mem_append_right _ ?_
          rw [List.map_append]
          exact List.mem_append_left _ (hsub before g hg)
      · refine List.mem_append_right _ (List.mem_map_of_mem ?_)
        simp
    constructor
    · rintro ⟨g, hg, hkey⟩
      exact ⟨g, hg, (hmem g hg).mp hkey⟩
    · rintro ⟨g, hg, hsame⟩
      exact ⟨g, hg, (hmem g hg).mpr hsame⟩
  · rintro hone before x mid y after rfl hdx hdy hid
    have hax := (hcalls.remembers hr).1.accepted_of_delivers hdx
    by_contra hlt
    have hmemx : x.frame ∈ (before ++ x :: (mid ++ y :: after)).map SendCall.frame :=
      List.mem_map_of_mem (by simp)
    have hmemy : y.frame ∈ (before ++ x :: (mid ++ y :: after)).map SendCall.frame :=
      List.mem_map_of_mem (by simp)
    have hkey : sendKey x.frame = sendKey y.frame :=
      (hsep _ (List.mem_append_right _ hmemx) _ (List.mem_append_right _ hmemy)).mpr
        ⟨hone _ hmemx _ hmemy hid, hid⟩
    have hsplit : before ++ x :: (mid ++ y :: after) = (before ++ x :: mid) ++ y :: after := by simp
    rw [hsplit] at hcalls
    obtain ⟨hy, hrem⟩ := hcalls.remembers hr
    refine (hy.outcome hrem).2.2 (hy.accepted_of_delivers hdy) ?_
    have hframes : acceptedFrames (before ++ x :: mid) =
        acceptedFrames before ++ x.frame :: acceptedFrames mid := by
      rw [acceptedFrames_append]
      simp [acceptedFrames, hax]
    rw [← hkey, hframes, ← List.append_assoc, List.map_append, List.map_cons]
    exact Ring.mem_rtake_of_append (by rw [List.length_map]; omega)

/-- A send on the first agent's connection, from a given state. -/
private def sendAlone (f : Frame) (h : Hub) : Option (Unit × World Hub Label) :=
  handleSend lenientPlatform 0 f [] { state := h }

private theorem valid_sendAlone {f : Frame} {h : Hub} {w : World Hub Label}
    (hrun : sendAlone f h = some ((), w)) (hcode : (h.conns 0).errCode = "") :
    SendCall.Valid lenientPlatform 0 ⟨f, [], { state := h }, w⟩ :=
  ⟨hrun, fun _ hb => by simp at hb, rfl, hcode⟩

private theorem calls_of_runs {f g : Frame} {w w' : World Hub Label}
    (hw : sendAlone f twoAgents = some ((), w)) (hw' : sendAlone g w.state = some ((), w'))
    (hcode : (w.state.conns 0).errCode = "") :
    Calls lenientPlatform 0 twoAgents
      [⟨f, [], { state := twoAgents }, w⟩, ⟨g, [], { state := w.state }, w'⟩] := by
  have hfirst : (twoAgents.conns 0).errCode = "" := by decide +kernel
  exact .cons (.refl _) (valid_sendAlone hw hfirst)
    (.cons (.refl _) (valid_sendAlone hw' hcode) .nil)

theorem send_replayed_iff_sample :
    ∃ x y, Calls lenientPlatform 0 twoAgents [x, y] ∧ x.frame = sampleDM ∧ y.frame = sampleDM ∧
      x.accepted = true ∧ x.Delivers ∧ y.Passes ∧ (y.Replayed 0 ↔
        ∃ g ∈ ([] ++ acceptedFrames [x]).rtake sendIDCap,
        g.destination = y.frame.destination ∧ g.id = y.frame.id) := by
  have hrun : ((sendAlone sampleDM twoAgents).bind fun r => (sendAlone sampleDM r.2.state).map
      fun r' => decide ((r.2.state.conns 0).errCode = "" ∧ Accepted r.2.trace ∧
        r.2.trace.any (reaches (routed (twoAgents.conns 0).agentID sampleDM) "" (some 1)) ∧
        LookedUp r'.2.trace)) = some true := by decide +kernel
  obtain ⟨⟨_, w⟩, hw, hrun'⟩ := Option.bind_eq_some_iff.mp hrun
  obtain ⟨⟨_, w'⟩, hw', hall⟩ := Option.map_eq_some_iff.mp hrun'
  obtain ⟨hcode, hacc, hdel, hlook⟩ := of_decide_eq_true hall
  obtain ⟨e, he, hreach⟩ := List.any_eq_true.mp hdel
  have hcalls := calls_of_runs hw hw' hcode
  have hadmitted : ∀ (h : Hub) (c : ConnID) (f : Frame),
      (h.admitted lenientPlatform c .master "" f).sendIDs = h.sendIDs :=
    fun h c f => (Hub.registerLocked_spec _ c).sendIDs
  have hids : twoAgents.sendIDs = {} := (hadmitted _ 1 _).trans (hadmitted _ 0 _)
  have hempty : Remembers 0 twoAgents [] := by
    refine ⟨.empty (by decide), ?_, rfl⟩
    rw [hids]
    exact SendIDCache.holds_empty _
  refine ⟨_, _, hcalls, rfl, rfl, decide_eq_true hacc, ⟨e, he, _, _, _, hreach⟩, hlook, ?_⟩
  refine (send_replayed_iff hcalls hempty ?_).1 [_] _ [] rfl hlook
  intro f hf g hg
  simp only [List.map_cons, List.map_nil, List.nil_append, List.mem_cons, List.not_mem_nil,
    or_false, or_self] at hf hg
  simp [hf, hg]

/-- The same message to the same agent, under a channel that routing ignores. -/
def channelledDM : Frame := { sampleDM with channel := "x" }

/-- Two messages to one agent whose different ids make one key. -/
def splitDM (channel id : String) : Frame := { sampleDM with channel := channel, id := id }

/-- A repeated message is accepted and delivered again, and a fresh one is rejected as a replay. -/
theorem dedupe_misjudges :
    (∃ x y, Calls lenientPlatform 0 twoAgents [x, y] ∧ x.accepted = true ∧ y.Passes ∧
      x.frame.destination = y.frame.destination ∧ x.frame.id = y.frame.id ∧ ¬ y.Replayed 0 ∧
        y.accepted = true ∧ x.Delivers ∧ y.Delivers) ∧
    (∃ x y, Calls lenientPlatform 0 twoAgents [x, y] ∧ x.accepted = true ∧ y.Passes ∧
      x.frame.id ≠ y.frame.id ∧ y.Replayed 0) := by
  constructor
  · have hrun : ((sendAlone sampleDM twoAgents).bind fun r =>
        (sendAlone channelledDM r.2.state).map fun r' =>
          decide ((r.2.state.conns 0).errCode = "" ∧ Accepted r.2.trace ∧ LookedUp r'.2.trace ∧
            ¬ (r'.2.state.conns 0).errCode = codeReplay ∧ Accepted r'.2.trace ∧
            r.2.trace.any (reaches (routed (twoAgents.conns 0).agentID sampleDM) "" (some 1)) ∧
            r'.2.trace.any (reaches (routed (twoAgents.conns 0).agentID channelledDM) ""
              (some 1)))) = some true := by
      decide +kernel
    obtain ⟨⟨_, w⟩, hw, hrun'⟩ := Option.bind_eq_some_iff.mp hrun
    obtain ⟨⟨_, w'⟩, hw', hall⟩ := Option.map_eq_some_iff.mp hrun'
    obtain ⟨hcode, hacc, hlook, hnot, hacc', hdel, hdel'⟩ := of_decide_eq_true hall
    obtain ⟨e, he, hreach⟩ := List.any_eq_true.mp hdel
    obtain ⟨e', he', hreach'⟩ := List.any_eq_true.mp hdel'
    have hdest : sampleDM.destination = channelledDM.destination := by decide +kernel
    have hid : sampleDM.id = channelledDM.id := by decide +kernel
    exact ⟨_, _, calls_of_runs hw hw' hcode, decide_eq_true hacc, hlook, hdest, hid, hnot,
      decide_eq_true hacc', ⟨e, he, _, _, _, hreach⟩, ⟨e', he', _, _, _, hreach'⟩⟩
  · have hrun : ((sendAlone (splitDM "x" "y|z") twoAgents).bind fun r =>
        (sendAlone (splitDM "x|y" "z") r.2.state).map fun r' =>
          decide ((r.2.state.conns 0).errCode = "" ∧ Accepted r.2.trace ∧ LookedUp r'.2.trace ∧
            (r'.2.state.conns 0).errCode = codeReplay)) = some true := by
      decide +kernel
    obtain ⟨⟨_, w⟩, hw, hrun'⟩ := Option.bind_eq_some_iff.mp hrun
    obtain ⟨⟨_, w'⟩, hw', hall⟩ := Option.map_eq_some_iff.mp hrun'
    obtain ⟨hcode, hacc, hlook, hreplay⟩ := of_decide_eq_true hall
    refine ⟨_, _, calls_of_runs hw hw' hcode, decide_eq_true hacc, hlook, ?_, hreplay⟩
    change "y|z" ≠ "z"
    decide

end Dap
