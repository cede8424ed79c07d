import Dap.Hub.Credentials
import Dap.Hub.Strangers

/-! Where client secrets come from in whole runs of the hub, and who is told them
(`hub/enroll.go`). -/
namespace Dap
open Proc

variable {P : Platform} {c d : ConnID} {past : List HubSection}

def Reply.secret : Reply → Option String
  | .enrolled secret => some secret
  | .frame _ => none

/-- Whatever neither issues a secret nor tells one. -/
def bystander (P : Platform) (c : ConnID) : Scope where
  writes _ := True
  sends _ r := r.secret = none
  stores _ _ := True
  does e := Task P c e ∧ e.post.secrets = e.pre.secrets

/-- What tells the connection its secret. -/
def confiding (c : ConnID) (secret : String) : Scope where
  sends d r := d = c ∧ r = .enrolled secret

/-- The connection, upgraded with the master secret and known by the name, drew the secret. -/
def Draws (c : ConnID) (past : List HubSection) (name secret : String) : Prop :=
  ∃ own ∈ past, (own.pre.conns c).auth = .master ∧ (own.pre.conns c).name = name ∧
    ∃ draw ∈ past, draw.label = .entropy ∧ draw.pre.secretAt draw.pre.drawn = secret

theorem Draws.append {name secret : String} (h : Draws c past name secret) (t : List HubSection) :
    Draws c (past ++ t) name secret := by
  obtain ⟨own, hown, ha, hn, draw, hdraw, hrest⟩ := h
  exact ⟨own, List.mem_append_left _ hown, ha, hn, draw, List.mem_append_left _ hdraw, hrest⟩

theorem lasting_draws (c : ConnID) (name secret : String) :
    Lasting fun past => Draws c past name secret := fun _ e h => Draws.append h [e]

/-- What the read loop may do after these sections. -/
def issuingScope (P : Platform) (c : ConnID) (past : List HubSection) : Scope where
  writes _ := True
  sends d r := ∀ secret, r.secret = some secret → d = c ∧ ∃ name, Draws c past name secret
  stores _ _ := True
  does e := Task P c e ∧ (e.post.secrets = e.pre.secrets ∨ ∃ op name secret,
    Draws c past name secret ∧ e.post = e.pre.enrollLocked op name (sha256Hex P secret))

/-- Only critical sections write to the table. -/
theorem Act.secrets {S : Scope} {e : HubSection} (he : Act c S e) :
    e.post.secrets = e.pre.secrets ∨ S.does e := by
  cases he with
  | @stored s pick id f hf =>
    left
    change (s.enqueueLocked id f).2.secrets = s.secrets
    rw [Hub.enqueueLocked_frame]
  | other he => exact .inr he
  | _ => exact .inl rfl

theorem bystander_refuses (code : String) : (bystander P c).Refuses c code :=
  ⟨trivial, fun _ => rfl⟩

section Programs

variable {α β : Type} {Q : List HubSection → Prop} {p : HubProc α}

abbrev Issues (P : Platform) (c : ConnID) (Q : List HubSection → Prop) (p : HubProc α) : Prop :=
  Guided (fun past e => Act c (issuingScope P c past) e) Q p

theorem issues_of_bystander {e : HubSection} (he : Act c (bystander P c) e) :
    Act c (issuingScope P c past) e := by
  have hwrites : ∀ w, (bystander P c).writes w → (issuingScope P c past).writes w := fun _ h => h
  refine he.mono hwrites (fun _ _ h secret hs => ?_) (fun _ _ h => h) fun _ h => ⟨h.1, .inl h.2⟩
  rw [show _ = none from h] at hs
  cases hs

theorem issues_of_confiding {name secret : String} {e : HubSection} (h : Draws c past name secret)
    (he : Act c (confiding c secret) e) : Act c (issuingScope P c past) e := by
  have hsends : ∀ d r, (confiding c secret).sends d r → (issuingScope P c past).sends d r := by
    rintro d _ ⟨rfl, rfl⟩ secret' hs
    obtain rfl := Option.some.inj hs
    exact ⟨rfl, name, h⟩
  exact he.mono (fun _ _ => trivial) hsends (fun _ _ _ => trivial) fun _ h => h.elim

theorem issues_bystander (hp : Emits (Act c (bystander P c)) p) : Issues P c Q p :=
  (Guided.of_emits (Q := fun _ => True) hp (fun _ _ _ => trivial)
    fun _ _ _ => issues_of_bystander).mono fun _ _ => trivial

theorem issues_bind_bystander {k : α → HubProc β} (hp : Emits (Act c (bystander P c)) p)
    (hQ : Lasting Q) (hk : ∀ a, Issues P c Q (k a)) : Issues P c Q (p >>= k) :=
  Guided.bind_emits hp hQ (fun _ _ _ => issues_of_bystander) hk

/-! ### Bystanders -/

theorem bystander_register : Emits (Act c (bystander P c)) (register c) := by
  unfold register
  refine Emits.bind (Act.does fun s _ => ⟨.registered, ?_⟩) fun _ =>
    Emits.bind (Act.read rfl) fun _ => Emits.bind (Act.readEntry _) fun _ =>
      Act.sendPresence (fun _ _ _ => rfl) _ _ _
  change (s.registerLocked c).2.secrets = s.secrets
  exact (Quiet.evictOther s c).secrets

theorem bystander_handleHello (f : Frame) (raw : Raw) :
    Emits (Act c (bystander P c)) (handleHello P c f raw) := by
  unfold handleHello welcome
  refine Emits.bind (Act.setOwn trivial) fun _ => Emits.bind (Act.logf _ _) fun _ =>
    Emits.bind (Act.read rfl) fun k => ?_
  split
  · exact Act.sendErr (bystander_refuses _) _
  refine Emits.bind (Act.does fun _ _ => ⟨.checked f raw, rfl⟩) fun r => ?_
  split
  · exact Act.reject (bystander_refuses _) _
  refine Emits.bind (Act.read rfl) fun k => ?_
  split
  · exact Act.reject (bystander_refuses _) _
  · exact Emits.bind (Act.setOwn trivial) fun _ => Emits.bind bystander_register fun _ =>
      Emits.bind (Act.sendFrame rfl) fun _ => Emits.pure _

theorem bystander_handleWhois (f : Frame) : Emits (Act c (bystander P c)) (handleWhois c f) := by
  unfold handleWhois
  refine Emits.bind (Act.read rfl) fun e => ?_
  split
  · exact Act.sendErr (bystander_refuses _) _
  · exact Emits.bind (Act.sendFrame rfl) fun _ => Emits.pure _

theorem bystander_handlePresenceQuery (f : Frame) :
    Emits (Act c (bystander P c)) (handlePresenceQuery c f) :=
  Emits.bind (Act.read rfl) fun _ => Emits.bind (Act.sendFrame rfl) fun _ => Emits.pure _

theorem bystander_handleJoin (f : Frame) : Emits (Act c (bystander P c)) (handleJoin P c f) := by
  unfold handleJoin joinChannel
  split
  · exact Act.sendErr (bystander_refuses _) _
  refine Emits.bind (Emits.bind (Act.does fun s _ => ⟨.joined _ _, ?_⟩) fun r => ?_) fun r => ?_
  · change (s.joinLocked P c f.channel f.chanPubkey).2.secrets = s.secrets
    rw [Hub.joinLocked_frame]
  · split
    · exact Emits.bind (Act.logf _ _) fun _ => Emits.pure _
    · exact Emits.bind (Act.logf _ _) fun _ => Emits.pure _
    · exact Emits.bind (Act.read rfl) fun _ =>
        Emits.bind (Act.sendPresence (fun _ _ _ => rfl) _ _ _) fun _ =>
          Emits.bind (Act.logf _ _) fun _ => Emits.pure _
  · split
    · exact Act.sendErr (bystander_refuses _) _
    · exact Emits.bind (Act.sendFrame rfl) fun _ => Emits.pure _

theorem bystander_handleFlush : Emits (Act c (bystander P c)) (handleFlush c) := by
  unfold handleFlush
  refine Emits.bind (Act.read rfl) fun k =>
    Emits.bind (Act.does fun _ _ => ⟨.drained _, rfl⟩) fun r =>
      Emits.bind (Emits.forM fun m _ => Emits.bind (Act.sendFrame rfl) fun _ => Emits.pure _)
        fun _ => ?_
  have hend : Emits (Act c (bystander P c)) (do
      let _ ← sendFrame c (.frame (flushedFrame r.1.length))
      logf "flush" fun _ => [("agent", k.agentID), ("count", toString r.1.length),
        ("overflowed", toString r.2)]) :=
    Emits.bind (Act.sendFrame rfl) fun _ => Act.logf _ _
  dsimp only
  split
  · exact Emits.bind (Act.sendErr (bystander_refuses _) _) fun _ => hend
  · exact hend

theorem bystander_handleSend (f : Frame) (raw : Raw) :
    Emits (Act c (bystander P c)) (handleSend P c f raw) :=
  Act.handleSend bystander_refuses (fun _ _ => ⟨.looked, rfl⟩)
    (fun _ _ _ _ => ⟨.latched _ _, rfl⟩) (fun _ _ => rfl) (fun _ _ => trivial) raw

theorem bystander_deregister : Emits (Act c (bystander P c)) (deregister c) := by
  unfold deregister
  refine Emits.bind (Emits.modify fun _ _ => .dropped) fun _ =>
    Emits.bind (Emits.guarded fun pick s r s' hd => .other ⟨.left hd, ?_⟩) fun left => ?_
  · obtain ⟨h1, rfl, ⟨-, rfl⟩ | ⟨-, e, he, rfl⟩⟩ := Hub.deregisterLocked_spec hd
    · rfl
    · rfl
  · split
    · exact Emits.pure _
    · exact Emits.bind (Act.read rfl) fun _ => Emits.bind (Act.readEntry _) fun _ =>
        Act.sendPresence (fun _ _ _ => rfl) _ _ _

/-! ### The issuer -/

theorem issues_enroll (op : EnrollOp) : Issues P c Q (enroll P c op) := by
  unfold enroll ownConn
  refine Guided.mono (Q := fun _ => True) ?_ fun _ _ => trivial
  refine Guided.bind_atomically (R := fun e past => e ∈ past) (fun _ _ _ _ => .observed rfl)
    (fun past e _ => by simp) fun own pick => ?_
  dsimp only
  split
  · exact issues_bystander (Act.sendErr (bystander_refuses _) _)
  next hauth =>
    refine Guided.bind_atomically (R := fun e past => e.label = .entropy →
      Draws c past (own.conns c).name (e.pre.secretAt e.pre.drawn))
      (fun _ _ _ _ => .other ⟨.drawn, .inl rfl⟩) ?_ fun s pick' => ?_
    · intro past e hown hl
      exact ⟨_, List.mem_append_left _ hown, not_not.mp hauth, rfl, e, by simp, hl, rfl⟩
    dsimp only
    let secret := s.secretAt s.drawn
    have hlasting := lasting_draws c (own.conns c).name secret
    refine Guided.mono (Q := fun past => Draws c past (own.conns c).name secret) ?_
      fun past h => h rfl
    refine Guided.bind_atomically (Q := fun past => Draws c past (own.conns c).name secret)
      (R := fun _ past => Draws c past (own.conns c).name secret)
      (fun past s' pick'' h => .other ⟨.enrolled op _ _, .inr ⟨op, _, secret, h, rfl⟩⟩)
      hlasting fun s' pick'' => ?_
    refine issues_bind_bystander (Act.logf _ _) hlasting fun _ => ?_
    have hsent : Emits (Act c (confiding c secret)) (do
        let _ ← sendFrame c (.enrolled secret)) :=
      Emits.bind (Act.sendFrame ⟨rfl, rfl⟩) fun _ => Emits.pure _
    exact Guided.of_emits hsent hlasting fun past e h he => issues_of_confiding h he

theorem issues_handler {f : Frame} {raw : Raw} {op : String} {handle : HubProc Unit}
    (hh : handler P c op f raw = some handle) : Issues P c Q handle := by
  unfold handler at hh
  split at hh
  · exact Option.some.inj hh ▸ issues_bystander (bystander_handleHello f raw)
  split at hh
  · exact Option.some.inj hh ▸ issues_bystander (bystander_handleWhois f)
  split at hh
  · exact Option.some.inj hh ▸ issues_bystander (bystander_handlePresenceQuery f)
  split at hh
  · exact Option.some.inj hh ▸ issues_bystander (bystander_handleJoin f)
  split at hh
  · exact Option.some.inj hh ▸ issues_bystander (bystander_handleSend f raw)
  split at hh
  · exact Option.some.inj hh ▸ issues_bystander bystander_handleFlush
  split at hh
  · exact Option.some.inj hh ▸ issues_enroll .enroll
  split at hh
  · exact Option.some.inj hh ▸ issues_enroll .enrollCreate
  · simp at hh

theorem issues_dispatch (data : Bytes) : Issues P c Q (dispatch P c data) := by
  have hlog : ∀ op id code (Q : List HubSection → Prop), Issues P c Q (logOp c op id code) :=
    fun _ _ _ _ => issues_bystander (Act.logf _ _)
  have hrefuse : ∀ code msg (Q : List HubSection → Prop), Issues P c Q (sendErr c code msg) :=
    fun code msg _ => issues_bystander (Act.sendErr (bystander_refuses code) msg)
  unfold dispatch
  refine Guided.bind (issues_bystander (Act.setOwn trivial)) fun _ => ?_
  split
  · exact Guided.bind (hrefuse _ _ _) fun _ => hlog _ _ _ _
  next f raw hparse =>
    unfold dispatchFrame
    refine Guided.bind (issues_bystander (Act.read rfl)) fun k => ?_
    split
    · exact Guided.bind (hrefuse _ _ _) fun _ => hlog _ _ _ _
    refine Guided.bind (issues_bystander (Act.does fun s _ => ⟨.touched _, ?_⟩)) fun _ => ?_
    · change (s.touchLastSeenLocked k.agentID).secrets = s.secrets
      rw [s.touchLastSeenLocked_frame]
    split
    next handle hh => exact Guided.bind (issues_handler hh) fun _ => hlog _ _ _ _
    next => exact Guided.bind (hrefuse _ _ _) fun _ => hlog _ _ _ _

theorem issues_readLoop (messages : List Message) : Issues P c Q (readLoop P c messages) := by
  refine Guided.mono (Q := fun _ => True) ?_ fun _ _ => trivial
  induction messages with
  | nil => exact .pure _
  | cons m rest ih =>
    unfold readLoop
    refine Guided.bind (issues_bystander (Act.read rfl)) fun closed => ?_
    split
    · exact .pure _
    · cases m with
      | binary data =>
        exact Guided.bind (issues_bystander (Act.sendErr (bystander_refuses _) _)) fun _ => ih
      | text data =>
        dsimp only
        split
        · exact issues_bystander (Act.reject (bystander_refuses _) _)
        · exact Guided.bind (issues_dispatch data) fun _ => ih

theorem serve_issues (remote : String) (messages : List Message) :
    Issues P c (fun _ => True) (serve P c remote messages) :=
  Guided.bind (issues_bystander (Act.logf _ _)) fun _ =>
    Guided.bind (issues_readLoop messages) fun _ =>
      Guided.bind (issues_bystander bystander_deregister) fun _ => issues_bystander (Act.logf _ _)

end Programs

/-! ### Whole runs -/

section Runs

variable {messages : ConnID → List Message} {H : HubHistory} {h h0 : Hub} {name hash : String}

/-- The hash is that of a secret which some connection drew under the name. -/
def Granted (P : Platform) (H : HubHistory) (name hash : String) : Prop :=
  ∃ c secret, Draws c (H.own c) name secret ∧ hash = sha256Hex P secret

theorem Granted.append (hg : Granted P H name hash) (H' : HubHistory) :
    Granted P (H ++ H') name hash := by
  obtain ⟨c, secret, hd, rfl⟩ := hg
  refine ⟨c, secret, ?_, rfl⟩
  rw [History.own_append]
  exact hd.append _

theorem Hub.mem_hashes_of_evicted {id : String}
    (hin : hash ∈ (h.adminEvictLocked id).2.hashes name) : hash ∈ h.hashes name := by
  unfold adminEvictLocked at hin
  split at hin
  · exact hin
  split at hin
  · exact hin
  next e he hoff =>
    dsimp only at hin
    split at hin
    · split at hin
      · exact hin
      · change hash ∈ ((h.secrets.erase e.name)[name]?).getD [] at hin
        rw [GoMap.getElem?_erase_ite] at hin
        split at hin
        · cases hin
        · exact hin
    · exact hin

theorem Ambient.mem_hashes {h h' : Hub} (ha : Ambient h h') (hin : hash ∈ h'.hashes name) :
    hash ∈ h.hashes name := by
  cases ha with
  | quiet hq hsend =>
    unfold Hub.hashes at hin ⊢
    rwa [hq.secrets] at hin
  | opened c auth boundName hs => exact hin
  | evicted id => exact Hub.mem_hashes_of_evicted hin
  | aclSet name allowed => exact hin

theorem Hub.mem_hashes_of_enrolled {op : EnrollOp} {n new : String}
    (hin : hash ∈ (h.enrollLocked op n new).hashes name) :
    hash ∈ h.hashes name ∨ (name = n ∧ hash = new) := by
  unfold hashes enrollLocked persistSecrets at hin
  dsimp only at hin
  rw [GoMap.getElem?_insert_ite] at hin
  split at hin
  next heq =>
    subst heq
    rcases List.mem_append.mp hin with hold | hnew
    · cases op with
      | enroll => cases hold
      | enrollCreate => exact .inl hold
    · exact .inr ⟨rfl, List.mem_singleton.mp hnew⟩
  · exact .inl hin

/-- The read loop keeps the hashes of a name or adds that of a secret which it has drawn. -/
theorem Act.mem_hashes {e : HubSection} (he : Act c (issuingScope P c past) e)
    (hin : hash ∈ e.post.hashes name) : hash ∈ e.pre.hashes name ∨
      ∃ secret, Draws c past name secret ∧ hash = sha256Hex P secret := by
  have hsame : e.post.secrets = e.pre.secrets → hash ∈ e.pre.hashes name := by
    intro heq
    unfold Hub.hashes at hin ⊢
    rwa [heq] at hin
  rcases he.secrets with heq | ⟨-, heq | ⟨op, n, secret, hd, heq⟩⟩
  · exact .inl (hsame heq)
  · exact .inl (hsame heq)
  · rw [heq] at hin
    rcases Hub.mem_hashes_of_enrolled hin with hold | ⟨rfl, rfl⟩
    · exact .inl hold
    · exact .inr ⟨secret, hd, rfl⟩

theorem HubRun.granted (hrun : HubRun P messages H h) (hstart : Linked h0 H h)
    (hin : hash ∈ h.hashes name) : hash ∈ h0.hashes name ∨ Granted P H name hash := by
  induction H using List.reverseRecOn generalizing h with
  | nil =>
    rw [hstart.of_nil]
    exact .inl hin
  | append_singleton H m ih =>
    obtain ⟨hbefore, rfl⟩ := hrun.of_concat
    obtain ⟨s, hl, hlast⟩ := hstart.of_append
    obtain ⟨rfl, -⟩ := hlast.of_cons
    have hpre : hash ∈ m.2.pre.hashes name ∨ Granted P (H ++ [m]) name hash := by
      obtain ⟨_ | c, e⟩ := m
      · exact .inl ((hrun.ambient e (by simp)).mem_hashes hin)
      · have hact := hrun.last_obeys fun remote => serve_issues remote (messages c)
        rcases hact.mem_hashes hin with hpre | ⟨secret, hd, heq⟩
        · exact .inl hpre
        · have hg : Granted P H name hash := ⟨c, secret, hd, heq⟩
          exact .inr (hg.append _)
    rcases hpre with hpre | hg
    · exact (ih hbefore hl hpre).imp_right fun hg => hg.append _
    · exact .inr hg

theorem Hub.hashes_of_matchBearer {token : String}
    (hm : h.matchBearer P token = some (.agent, name)) :
    ∃ hash ∈ h.hashes name, constEq P hash (sha256Hex P token) = true := by
  unfold matchBearer agentForSecret at hm
  split at hm
  · cases hm
  split at hm
  · cases hm
  simp only [Option.map_map, Option.map_eq_some_iff] at hm
  obtain ⟨⟨n, hashes⟩, hfind, heq⟩ := hm
  obtain rfl : n = name := by simpa using heq
  have hmem := List.mem_of_find?_eq_some hfind
  have hany := List.find?_some hfind
  obtain ⟨hash, hin, heq⟩ := List.any_eq_true.mp hany
  rw [GoMap.mem_toList] at hmem
  refine ⟨hash, ?_, heq⟩
  unfold Hub.hashes
  rwa [hmem]

/-- In every run of the hub each client secret it accepts is one whose hash was in its file at the
start or that a connection drew which had come with the master secret, under that connection's
name; and a secret is told to the connection that drew it and to no other. -/
theorem secrets_issued (hrun : HubRun P messages H h) (hstart : Linked h0 H h) :
    (∀ token name, h.matchBearer P token = some (.agent, name) →
      ∃ hash, constEq P hash (sha256Hex P token) = true ∧
        (hash ∈ h0.hashes name ∨ Granted P H name hash)) ∧
    ∀ (H1 : HubHistory) o e H2 d secret, H = H1 ++ (o, e) :: H2 → Queues d (.enrolled secret) e →
      o = some d ∧ ∃ name, Draws d (H1.own d) name secret := by
  refine ⟨fun token name hm => ?_, fun H1 o e H2 d secret hH hq => ?_⟩
  · obtain ⟨hash, hin, heq⟩ := Hub.hashes_of_matchBearer hm
    exact ⟨hash, heq, hrun.granted hstart hin⟩
  · subst hH
    obtain ⟨hl, hpush⟩ := hq
    have hsplit : H1 ++ (o, e) :: H2 = (H1 ++ [(o, e)]) ++ H2 := by simp
    rw [hsplit] at hrun
    obtain ⟨s, hrun, -⟩ := hrun.initial
    cases o with
    | none =>
      have hlen := (hrun.ambient e (by simp)).send_length (p := d)
      rw [hpush, List.length_append, List.length_singleton] at hlen
      omega
    | some c =>
      have hact := hrun.last_obeys fun remote => serve_issues remote (messages c)
      obtain ⟨hsends, -⟩ := hact.queues (fun _ ht => ht.1) hl
      obtain ⟨rfl, name, hd⟩ := hsends secret rfl
      exact ⟨rfl, name, hd⟩

end Runs

/-- A request for a secret. -/
def selfEnroll : Frame where
  op := "enroll"

theorem secrets_issued_sample : ∃ h0 H h token name hash,
    HubRun lenientPlatform (fun _ => [wire (sampleHello 0), wire selfEnroll]) H h ∧
      Linked h0 H h ∧ h.matchBearer lenientPlatform token = some (.agent, name) ∧
      (hash ∈ h0.hashes name ∨ Granted lenientPlatform H name hash) := by
  have hruns : (alone (serve lenientPlatform 0 "" [wire (sampleHello 0), wire selfEnroll])
      (({} : Hub).openConn 0 .master "")).map (fun r =>
        decide (r.2.state.matchBearer lenientPlatform (({} : Hub).secretAt 0) =
          some (.agent, (sampleHello 0).name))) = some true := by
    decide +kernel
  obtain ⟨⟨_, w⟩, hw, hmatch⟩ := Option.map_eq_some_iff.mp hruns
  have hmatch := of_decide_eq_true hmatch
  have hrun := HubRun.single hw
  obtain ⟨h0, -, -, hstart⟩ := hrun.start
  obtain ⟨hash, -, hin⟩ := (secrets_issued hrun hstart).1 _ _ hmatch
  exact ⟨h0, _, _, _, _, hash, hrun, hstart, hmatch, hin⟩

end Dap
