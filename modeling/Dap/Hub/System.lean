import Dap.Hub.Acts
import Dap.Hub.Goroutine
import Dap.Lib.Parallel

/-! The whole hub: the goroutines of all its connections on one time line, with the upgrades, the
write pumps and the administrator in between. -/
namespace Dap
open Proc

abbrev HubHistory := History ConnID Hub Label

/-- What nobody's read loop does: time passes, frames leave the queues for the wire, connections die
and are opened, the administrator evicts and sets ACLs. -/
inductive Ambient : Hub → Hub → Prop where
  | quiet {h h'} (hq : Quiet h h') (hsend : ∀ d, (h'.conns d).send <:+ (h.conns d).send) :
      Ambient h h'
  | opened {h} (c auth boundName) (hs : (h.conns c).stage = .absent) :
      Ambient h (h.openConn c auth boundName)
  | evicted {h} (id) : Ambient h (h.adminEvictLocked id).2
  | aclSet {h} (name allowed) : Ambient h (h.setACLLocked name allowed)

/-- All that the read loop of a connection may do. -/
def everything (P : Platform) (c : ConnID) : Scope where
  writes _ := True
  sends _ _ := True
  stores _ _ := True
  does := Task P c

/-- A section of the read loop of a connection, or of nobody's. -/
def HubMove (P : Platform) : Option ConnID × HubSection → Prop
  | (some c, e) => Act c (everything P c) e
  | (none, e) => Ambient e.pre e.post

theorem serves_everything (P : Platform) (c : ConnID) : (everything P c).Serves P c :=
  ⟨fun _ _ => trivial, fun _ _ => trivial, fun _ _ _ => trivial, fun _ he => he⟩

variable {P : Platform} {c : ConnID}

theorem Act.mono {S S' : Scope} (hw : ∀ f, S.writes f → S'.writes f)
    (hs : ∀ d r, S.sends d r → S'.sends d r) (hm : ∀ id f, S.stores id f → S'.stores id f)
    (hd : ∀ e, S.does e → S'.does e) {e : HubSection} (he : Act c S e) : Act c S' e := by
  cases he with
  | observed hl => exact .observed hl
  | logged event kvs => exact .logged event kvs
  | wrote hf => exact .wrote (hw _ hf)
  | reserved hr => exact .reserved (hs _ _ hr)
  | released hr => exact .released (hs _ _ hr)
  | pushed hr hroom => exact .pushed (hs _ _ hr) hroom
  | missed hr => exact .missed (hs _ _ hr)
  | closedAs reason => exact .closedAs reason
  | dropped => exact .dropped
  | rejected => exact .rejected
  | unheard => exact .unheard
  | stored hf => exact .stored (hm _ _ hf)
  | other he => exact .other (hd _ he)

theorem Act.does_or {S : Scope} {e : HubSection} (he : Act c S e) : S.does e ∨
    (e.label ≠ .sendIDs ∧ e.label ≠ .latch ∧ e.post.sendIDs = e.pre.sendIDs) := by
  by_cases hd : S.does e
  · exact .inl hd
  · right
    have hquiet : Act c { S with does := fun _ => False } e := by
      cases he with
      | other he => exact absurd he hd
      | observed hl => exact .observed hl
      | logged event kvs => exact .logged event kvs
      | wrote hf => exact .wrote hf
      | reserved hr => exact .reserved hr
      | released hr => exact .released hr
      | pushed hr hroom => exact .pushed hr hroom
      | missed hr => exact .missed hr
      | closedAs reason => exact .closedAs reason
      | dropped => exact .dropped
      | rejected => exact .rejected
      | unheard => exact .unheard
      | stored hf => exact .stored hf
    exact hquiet.sendIDs fun _ h => h

theorem Hub.adminEvictLocked_sendIDs (h : Hub) (id : String) :
    (h.adminEvictLocked id).2.sendIDs = h.sendIDs := by
  unfold Hub.adminEvictLocked
  dsimp only
  split
  · rfl
  split
  · rfl
  split
  · split <;> rfl
  · rfl

theorem Act.clock {S : Scope} {e : HubSection} (he : Act c S e)
    (hd : ∀ e, S.does e → e.post.clock = e.pre.clock) : e.post.clock = e.pre.clock := by
  cases he with
  | @stored s pick id f hf =>
    change (s.enqueueLocked id f).2.clock = s.clock
    rw [Hub.enqueueLocked_frame]
  | other he => exact hd _ he
  | _ => rfl

/-! ### Runs of the whole hub -/

/-- The sections are the first ones of a run of the connection's read loop, from its upgrade on,
among steps of the others. -/
def Follows (P : Platform) (c : ConnID) (messages : List Message) (t : List HubSection) : Prop :=
  ∃ (s : Hub) (auth : AuthKind) (boundName remote : String) (script : List (Beat Hub))
    (w : World Hub Label), Reachable P s ∧ (s.conns c).stage = .absent ∧
      Relies (Others P c) script ∧ serve P c remote messages
        { state := s.openConn c auth boundName, script := script } = some ((), w) ∧ t <+: w.trace

/-- The channels come from the file, which knows no members. -/
def Hub.Unjoined (h : Hub) : Prop :=
  ∀ (name : String) (ch : Channel), h.channels[name]? = some ch → ch.members = ∅

/-- A run of the hub from its start, while the messages arrive on its connections. -/
structure HubRun (P : Platform) (messages : ConnID → List Message) (H : HubHistory) (h : Hub) :
    Prop where
  start : ∃ h0 : Hub, h0.Fresh ∧ h0.Unjoined ∧ Linked h0 H h
  follows : ∀ c, H.own c ≠ [] → Follows P c (messages c) (H.own c)
  ambient : ∀ e, (none, e) ∈ H → Ambient e.pre e.post

theorem Ambient.step {h h' : Hub} (ha : Ambient h h') : ∃ who, Step P who h h' := by
  cases ha with
  | quiet hq hsend => exact ⟨none, .quiet hq⟩
  | opened c auth boundName hs => exact ⟨some c, .opened c auth boundName hs⟩
  | evicted id => exact ⟨none, .evicted id⟩
  | aclSet name allowed => exact ⟨none, .aclSet name allowed⟩

/-- What any run of the read loop records holds of the sections that follow it. -/
theorem Follows.of_triple {messages : List Message} {t : List HubSection}
    {Q : List HubSection → Prop} (hf : Follows P c messages t)
    (hp : ∀ remote, HubTriple (fun _ _ => True) (fun past _ => past = [])
      (serve P c remote messages) fun _ past _ => Q past) : ∃ t', t <+: t' ∧ Q t' := by
  obtain ⟨s, auth, boundName, remote, script, w, -, -, -, hrun, ht⟩ := hf
  have hdone := (hp remote _ () w hrun (fun _ _ _ => trivial) rfl).1
  exact ⟨w.trace, ht, hdone⟩

theorem Follows.step {messages : List Message} {t : List HubSection}
    (hf : Follows P c messages t) {e : HubSection} (he : e ∈ t) :
    Reachable P e.pre ∧ Step P (some c) e.pre e.post := by
  obtain ⟨s, auth, boundName, remote, script, w, hr, hs, hrely, hrun, ht⟩ := hf
  have hopen : Reachable P (s.openConn c auth boundName) :=
    hr.step (.opened c auth boundName hs)
  have halive : Alive (Reachable P) c (s.openConn c auth boundName) := by
    refine ⟨hopen, .inl ?_⟩
    unfold Hub.who Hub.openConn
    rw [Hub.updConn_conns_self]
    rfl
  have hserve := serve_spec (surroundings_reachable P c) remote messages
  obtain ⟨-, -, u, hu, hown⟩ := hserve _ () w hrun hrely halive
  rw [List.nil_append] at hu
  exact hown e (hu ▸ ht.subset he)

namespace HubRun

variable {messages : ConnID → List Message} {H : HubHistory} {h : Hub}

theorem of_concat {m : Option ConnID × HubSection} (hrun : HubRun P messages (H ++ [m]) h) :
    HubRun P messages H m.2.pre ∧ h = m.2.post := by
  obtain ⟨h0, hf, hu, hl⟩ := hrun.start
  obtain ⟨s, hl, hlast⟩ := hl.of_append
  obtain ⟨rfl, hend⟩ := hlast.of_cons
  refine ⟨⟨⟨h0, hf, hu, hl⟩, ?_, fun e he => hrun.ambient e (List.mem_append_left _ he)⟩, ?_⟩
  · intro c hc
    obtain ⟨s, auth, boundName, remote, script, w, hr, hs, hrely, hserve, ht⟩ :=
      hrun.follows c (by simp [hc])
    rw [History.own_append] at ht
    exact ⟨s, auth, boundName, remote, script, w, hr, hs, hrely, hserve,
      (List.prefix_append _ _).trans ht⟩
  · exact hend.of_nil.symm

theorem of_append {H' : HubHistory} {m : Option ConnID × HubSection}
    (hrun : HubRun P messages (H ++ m :: H') h) : HubRun P messages H m.2.pre := by
  induction H' using List.reverseRecOn generalizing h with
  | nil => exact hrun.of_concat.1
  | append_singleton H' m' ih =>
    rw [← List.cons_append, ← List.append_assoc] at hrun
    exact ih hrun.of_concat.1

theorem own_step (hrun : HubRun P messages H h) {e : HubSection} (he : (some c, e) ∈ H) :
    Reachable P e.pre ∧ Step P (some c) e.pre e.post := by
  have hown := History.mem_own.mpr he
  exact (hrun.follows c (List.ne_nil_of_mem hown)).step hown

theorem step (hrun : HubRun P messages H h) {m : Option ConnID × HubSection} (hm : m ∈ H) :
    ∃ who, Step P who m.2.pre m.2.post := by
  obtain ⟨_ | c, e⟩ := m
  · exact (hrun.ambient e hm).step
  · exact ⟨_, (hrun.own_step hm).2⟩

theorem reachable (hrun : HubRun P messages H h) : Reachable P h := by
  obtain ⟨h0, hf, -, hl⟩ := hrun.start
  refine (hl.invariant (.fresh hf) fun m hm hpre => ?_).1
  obtain ⟨who, hs⟩ := hrun.step hm
  exact hpre.step hs

end HubRun

/-! ### Authenticated connections -/

/-- The connection has authenticated as the agent, with the key. -/
def Hub.SpeaksFor (h : Hub) (d : ConnID) (id pub : String) : Prop :=
  (h.conns d).authed = true ∧ (h.conns d).agentID = id ∧ (h.conns d).pubkey = pub

/-- Once authenticated, a connection stays who it is. -/
theorem Step.speaksFor {who : Option ConnID} {h h' : Hub} (hs : Step P who h h')
    (hi : Coherent P h) {d : ConnID} {id pub : String} (hd : h.SpeaksFor d id pub) :
    h'.SpeaksFor d id pub := by
  have hkept : (h'.who d).authed = (h.who d).authed → (h'.who d).agentID = (h.who d).agentID →
      (h'.who d).pubkey = (h.who d).pubkey → h'.SpeaksFor d id pub := fun h1 h2 h3 =>
    ⟨h1.trans hd.1, h2.trans hd.2.1, h3.trans hd.2.2⟩
  have hsame : h'.who d = h.who d → h'.SpeaksFor d id pub := fun heq =>
    hkept (by rw [heq]) (by rw [heq]) (by rw [heq])
  have hlate : (h.who d).stage ≠ .absent ∧ (h.who d).stage ≠ .reading := by
    have hearly := (hi.sound d).early
    constructor
    · exact fun hst => Bool.noConfusion ((hearly (.inl hst)).symm.trans hd.1)
    · exact fun hst => Bool.noConfusion ((hearly (.inr hst)).symm.trans hd.1)
  cases hs with
  | quiet hq => exact hsame (hq.identity d)
  | opened c auth boundName hs =>
    refine hsame (h.who_updConn_of_ne _ ?_)
    rintro rfl
    exact hlate.1 hs
  | greeted c f raw hs hv hn =>
    refine hsame (h.who_updConn_of_ne _ ?_)
    rintro rfl
    exact hlate.2 hs
  | registered c hs =>
    have hreg := h.registerLocked_spec c
    by_cases hdc : d = c
    · subst hdc
      exact hkept (by rw [hreg.self]) (by rw [hreg.self]) (by rw [hreg.self])
    · exact hsame (hreg.others d hdc)
  | touched c hs =>
    rw [h.touchLastSeenLocked_frame] at hsame
    rw [h.touchLastSeenLocked_frame]
    exact hsame rfl
  | joined c name chanPub hs =>
    rw [Hub.joinLocked_frame] at hsame
    rw [Hub.joinLocked_frame]
    exact hsame rfl
  | enqueued c agentID f hs =>
    rw [Hub.enqueueLocked_frame] at hsame
    rw [Hub.enqueueLocked_frame]
    exact hsame rfl
  | drained c hs => exact hsame rfl
  | latched c key hs => exact hsame rfl
  | enrolled c op hash hs ha => exact hsame rfl
  | left c r hs hc hl =>
    have hconns := Hub.deregisterLocked_conns hl
    by_cases hdc : d = c
    · subst hdc
      unfold Hub.SpeaksFor
      rw [hconns, Hub.updConn_conns_self]
      exact hd
    · refine hsame ?_
      unfold Hub.who
      rw [hconns, h.updConn_conns_of_ne _ hdc]
  | evicted id =>
    rcases h.adminEvictLocked_spec id with heq | ⟨-, -, -, hconns⟩
    · exact hsame (by rw [heq])
    · refine hsame ?_
      unfold Hub.who
      rw [hconns]
  | aclSet name allowed => exact hsame rfl

theorem HubRun.speaksFor {messages : ConnID → List Message} {H1 H2 : HubHistory} {h : Hub}
    {m : Option ConnID × HubSection} (hrun : HubRun P messages (H1 ++ m :: H2) h) {d : ConnID}
    {id pub : String} (hd : m.2.pre.SpeaksFor d id pub) :
    h.SpeaksFor d id pub ∧ ∀ m' ∈ H2, m'.2.pre.SpeaksFor d id pub := by
  have hpre : Reachable P m.2.pre := hrun.of_append.reachable
  obtain ⟨h0, -, -, hl⟩ := hrun.start
  obtain ⟨s, -, hl⟩ := hl.of_append
  obtain ⟨rfl, hrest⟩ := hl.of_cons
  obtain ⟨who, hs⟩ := hrun.step (List.mem_append_right _ List.mem_cons_self)
  obtain ⟨⟨-, hend⟩, hall⟩ := hrest.invariant
    (I := fun s => Reachable P s ∧ s.SpeaksFor d id pub)
    ⟨hpre.step hs, hs.speaksFor (.reachable hpre) hd⟩ fun m' hm' hI => by
      obtain ⟨who', hs'⟩ := hrun.step (List.mem_append_right _ (List.mem_cons_of_mem _ hm'))
      exact ⟨hI.1.step hs', hs'.speaksFor (.reachable hI.1) hI.2⟩
  exact ⟨hend, fun m' hm' => (hall m' hm').2⟩

/-- A connection in the map speaks for the agent it stands under. -/
theorem Coherent.speaksFor {h : Hub} (hi : Coherent P h) {id : String} {d : ConnID}
    (hd : h.clients[id]? = some d) : h.SpeaksFor d id (h.conns d).pubkey := by
  obtain ⟨hs, hid, -⟩ := hi.client id d hd
  exact ⟨(hi.sound d).late (.inr hs), hid, rfl⟩

end Dap
