import Dap.Hub.Dedupe
import Dap.Hub.System

/-! The same send on two connections of one agent, an old one that is still at it and its
replacement. -/
namespace Dap
open Proc

variable {P : Platform} {c d : ConnID} {pub key : String}

/-- The look at the accepted ids, which does not find the key. -/
def Misses (pub key : String) (e : HubSection) : Prop :=
  e.label = .sendIDs ∧ e.pre.sendIDs.seen pub key = false

/-- The key is added to the accepted ids. -/
def Latches (pub key : String) (e : HubSection) : Prop :=
  e.label = .latch ∧ e.post = e.pre.addSendID pub key

/-- An accepted send: one look, and at the very end the latch. -/
structure Goes (pub key : String) (t t1 : List HubSection) (e : HubSection) (t2 : List HubSection)
    (e' : HubSection) : Prop where
  trace : t = t1 ++ e :: (t2 ++ [e'])
  misses : Misses pub key e
  latches : Latches pub key e'
  before : Untold t1
  between : Untold t2

/-! ### One accepted send -/

/-- Sections that are neither a look nor a latch keep `Q`. -/
def Untelling (Q : List HubSection → Prop) : Prop :=
  ∀ past e, e.label ≠ .sendIDs → e.label ≠ .latch → Q past → Q (past ++ [e])

theorem telling_nothing {α : Type} {S : Scope} {p : HubProc α} (hp : Emits (Act c S) p)
    (hd : ∀ e, ¬ S.does e) {Q : List HubSection → Prop} (hQ : Untelling Q) :
    HubTriple (fun _ _ => True) (fun past _ => Q past) p fun _ past _ => Q past := by
  refine (hp (fun _ _ => True) (fun past _ => Q past) (fun _ _ _ _ hs => hs) ?_).mono_guarantee
    fun _ _ _ => trivial
  intro past e he hpast
  obtain ⟨hlook, hlatch, -⟩ := he.sendIDs hd
  exact hQ past e hlook hlatch hpast

/-- One of the sections saw the connection with the key `pub`. -/
def Saw (c : ConnID) (pub : String) (past : List HubSection) : Prop :=
  ∃ e ∈ past, (e.pre.conns c).pubkey = pub

theorem Saw.append {past : List HubSection} (h : Saw c pub past) (t : List HubSection) :
    Saw c pub (past ++ t) := by
  obtain ⟨e, he, hpub⟩ := h
  exact ⟨e, List.mem_append_left t he, hpub⟩

/-- Not looked up yet. -/
def Early (c : ConnID) (pub : String) (past : List HubSection) : Prop :=
  Untold past ∧ Saw c pub past

/-- Looked up and not found. -/
def Missed (c : ConnID) (pub key : String) (past : List HubSection) : Prop :=
  (∃ t1 e t2, past = t1 ++ e :: t2 ∧ Misses pub key e ∧ Untold t1 ∧ Untold t2) ∧ Saw c pub past

/-- When the send was accepted, it went as it should. -/
def Gone (c : ConnID) (key : String) (past : List HubSection) : Prop :=
  Accepted past → ∃ pub t1 e t2 e', Goes pub key past t1 e t2 e' ∧ Saw c pub past

theorem early_untelling : Untelling (Early c pub) := fun past e hlook hlatch h =>
  ⟨h.1.concat past e hlook hlatch, h.2.append [e]⟩

theorem missed_untelling : Untelling (Missed c pub key) := by
  rintro past e hlook hlatch ⟨⟨t1, e0, t2, rfl, hmiss, h1, h2⟩, hsaw⟩
  refine ⟨⟨t1, e0, t2 ++ [e], by simp, hmiss, h1, h2.concat t2 e hlook hlatch⟩, hsaw.append [e]⟩

theorem unlatched_untelling : Untelling Unlatched := by
  intro past e _ hlatch h x hx
  rcases List.mem_append.mp hx with hx | hx
  · exact h x hx
  · rw [List.mem_singleton.mp hx]
    exact hlatch

theorem Early.gone {past : List HubSection} (h : Early c pub past) : Gone c key past :=
  fun ⟨e, he, hl⟩ => absurd hl (h.1 e he).2

theorem Missed.gone {past : List HubSection} (h : Missed c pub key past) : Gone c key past := by
  obtain ⟨⟨t1, e0, t2, rfl, hmiss, h1, h2⟩, -⟩ := h
  rintro ⟨e, he, hl⟩
  rcases List.mem_append.mp he with he | he
  · exact absurd hl (h1 e he).2
  rcases List.mem_cons.mp he with rfl | he
  · rw [hmiss.1] at hl
    exact Label.noConfusion hl
  · exact absurd hl (h2 e he).2

theorem handleSend_gone (f : Frame) (raw : Raw) :
    HubTriple (fun _ _ => True) (fun past _ => past = []) (handleSend P c f raw)
      fun _ past _ => Gone c (sendKey f) past := by
  have hrefuse : ∀ code msg, Emits (Act c ⟨fun f => f = setCode code, fun _ _ => True,
      fun _ _ => True, fun _ => False⟩) (sendErr c code msg) :=
    fun code msg => Act.sendErr ⟨rfl, fun _ => trivial⟩ msg
  have hearly : ∀ pub code msg, HubTriple (fun _ _ => True) (fun past _ => Early c pub past)
      (sendErr c code msg) fun _ past _ => Gone c (sendKey f) past := fun pub code msg =>
    (telling_nothing (hrefuse code msg) (fun _ he => he) early_untelling).mono (fun _ _ h => h)
      fun _ _ _ => Early.gone
  unfold handleSend
  refine Triple.bind (M := fun a past _ => Early c a.pubkey past)
    (Triple.read (fun _ _ _ _ h => h) ?_) fun a => ?_
  · rintro past s pick rfl
    refine ⟨trivial, ?_, _, List.mem_singleton_self _, rfl⟩
    exact Untold.concat [] _ Label.noConfusion Label.noConfusion fun e he => by cases he
  split
  · exact hearly _ _ _
  refine Triple.bind (M := fun _ past _ => Early c a.pubkey past)
    (Triple.read (fun _ _ _ _ h => h) ?_) fun now => ?_
  · intro past s pick h
    exact ⟨trivial, early_untelling past _ Label.noConfusion Label.noConfusion h⟩
  split
  · exact hearly _ _ _
  split
  · exact hearly _ _ _
  refine Triple.bind (M := fun used past _ =>
      (used = false → Missed c a.pubkey (sendKey f) past) ∧ Unlatched past)
    (Triple.read (fun _ _ _ _ h => h) ?_) fun used => ?_
  · rintro past s pick ⟨huntold, hsaw⟩
    refine ⟨trivial, fun hfalse => ⟨⟨past, _, [], rfl, ⟨rfl, hfalse⟩, huntold, ?_⟩, ?_⟩, ?_⟩
    · exact fun e he => absurd he List.not_mem_nil
    · exact hsaw.append _
    · intro e he
      rcases List.mem_append.mp he with he | he
      · exact (huntold e he).2
      · rw [List.mem_singleton.mp he]
        exact Label.noConfusion
  split
  next hyes =>
    exact (telling_nothing (hrefuse _ _) (fun _ he => he) unlatched_untelling).mono
      (fun _ _ h => h.2) fun _ _ _ h hacc => absurd hacc h.not_accepted
  next hno =>
    have hdeliver : Emits (Act c delivering) (deliver P c f) :=
      Act.deliver (fun code hc => ⟨⟨code, hc, rfl⟩, fun _ => trivial⟩) (fun _ _ => trivial)
        fun _ _ => trivial
    refine Triple.bind (M := fun _ past _ => Missed c a.pubkey (sendKey f) past)
      ((telling_nothing hdeliver (fun _ he => he) missed_untelling).mono
        (fun _ _ h => h.1 (by simpa using hno)) fun _ _ _ h => h) fun accepted => ?_
    split
    · refine Triple.modify (fun _ _ _ _ h => h) ?_
      rintro past s pick ⟨⟨t1, e, t2, rfl, hmiss, h1, h2⟩, hsaw⟩
      refine ⟨trivial, fun _ => ?_⟩
      refine ⟨a.pubkey, t1, e, t2, ⟨.latch, s, s.addSendID a.pubkey (sendKey f), pick⟩,
        ⟨?_, hmiss, ⟨rfl, rfl⟩, h1, h2⟩, hsaw.append _⟩
      rw [List.append_assoc, List.cons_append]
    · exact Triple.pure fun _ _ h => h.gone

/-! ### The cache along a history -/

theorem Task.sendIDs {e : HubSection} (ht : Task P c e) :
    (∃ pub key, Latches pub key e) ∨ e.post.sendIDs = e.pre.sendIDs := by
  cases ht with
  | @registered s pick => exact .inr (s.registerLocked_spec c).sendIDs
  | @touched s pick id =>
    right
    rw [s.touchLastSeenLocked_frame]
  | joined name chanPub =>
    right
    rw [Hub.joinLocked_frame]
  | latched pub key => exact .inl ⟨pub, key, rfl, rfl⟩
  | left hd =>
    right
    obtain ⟨h1, rfl, ⟨-, rfl⟩ | ⟨-, e, -, rfl⟩⟩ := Hub.deregisterLocked_spec hd <;> rfl
  | _ => exact .inr rfl

theorem Ambient.sendIDs {h h' : Hub} (ha : Ambient h h') : h'.sendIDs = h.sendIDs := by
  cases ha with
  | quiet hq hsend => exact hq.sendIDs
  | opened c auth boundName hs => rfl
  | evicted id => exact h.adminEvictLocked_sendIDs id
  | aclSet name allowed => rfl

/-- A move leaves the accepted ids of a key as they are, or latches one more. -/
theorem HubMove.ring {m : Option ConnID × HubSection} (hm : HubMove P m) {r : SendRing}
    (h : m.2.pre.sendIDs.Holds pub r) : m.2.post.sendIDs.Holds pub r ∨
      ∃ key, Latches pub key m.2 ∧ m.2.post.sendIDs.Holds pub (r.push key) := by
  have hcase : (∃ pub key, Latches pub key m.2) ∨ m.2.post.sendIDs = m.2.pre.sendIDs := by
    obtain ⟨_ | c, e⟩ := m
    · exact .inr (Ambient.sendIDs hm)
    · rcases Act.does_or hm with ht | ⟨-, -, hids⟩
      · exact ht.sendIDs
      · exact .inr hids
  rcases hcase with ⟨pub', key, hl, hpost⟩ | hids
  · rw [hpost]
    by_cases hpub : pub' = pub
    · subst hpub
      exact .inr ⟨key, ⟨hl, hpost⟩, h.add_self key⟩
    · exact .inl (h.add_of_ne hpub key)
  · rw [hids]
    exact .inl h

open Classical in
/-- How many ids are latched for the key. -/
noncomputable def acceptances (pub : String) (H : HubHistory) : ℕ :=
  H.countP fun m => decide (∃ key, Latches pub key m.2)

open Classical in
theorem ring_along {s s' : Hub} {H : HubHistory} (hl : Linked s H s')
    (hm : ∀ m ∈ H, HubMove P m) {r : SendRing} (h : s.sendIDs.Holds pub r) :
    ∃ keys : List String, keys.length ≤ acceptances pub H ∧
      s'.sendIDs.Holds pub (keys.foldl Ring.push r) := by
  induction hl generalizing r with
  | nil s => exact ⟨[], Nat.zero_le _, h⟩
  | @cons who e H s' hl ih =>
    have hrest : ∀ m ∈ H, HubMove P m := fun m hm' => hm m (List.mem_cons_of_mem _ hm')
    rcases (hm _ List.mem_cons_self).ring h with hsame | ⟨key, hlatch, hpush⟩
    · obtain ⟨keys, hlen, hend⟩ := ih hrest hsame
      refine ⟨keys, le_trans hlen ?_, hend⟩
      unfold acceptances
      rw [List.countP_cons]
      omega
    · obtain ⟨keys, hlen, hend⟩ := ih hrest hpush
      refine ⟨key :: keys, ?_, hend⟩
      unfold acceptances at hlen ⊢
      rw [List.countP_cons_of_pos, List.length_cons]
      · omega
      · exact decide_eq_true ⟨key, hlatch⟩

/-- A latched key is found as long as fewer than a whole window is latched after it. -/
theorem seen_after_latch {s s' : Hub} {H : HubHistory} (hl : Linked s H s')
    (hm : ∀ m ∈ H, HubMove P m) {r : SendRing} (h : s.sendIDs.Holds pub (r.push key))
    (hfew : acceptances pub H < sendIDCap) : s'.sendIDs.seen pub key = true := by
  obtain ⟨keys, hlen, hend⟩ := ring_along hl hm h
  rw [hend.seen_iff, Ring.window_foldl_push _ (r.window_push key), List.append_assoc]
  exact Ring.mem_rtake_of_append (lt_of_le_of_lt hlen hfew)

/-! ### Two sends -/

/-- One send of the frame `f`, whose sections are those of `c` in the history. -/
structure Sends (P : Platform) (c : ConnID) (f : Frame) (H : HubHistory) : Prop where
  run : ∃ raw w w', handleSend P c f raw w = some ((), w') ∧ w.trace = [] ∧ w'.trace = H.own c

/-- `d` looks at the accepted ids after `c` has done so and before `c` latches its own. -/
def LooksBetween (c d : ConnID) (H : HubHistory) : Prop :=
  ∃ (H1 H2 : HubHistory) (e : HubSection), H = H1 ++ (some d, e) :: H2 ∧ e.label = .sendIDs ∧
    LookedUp (H1.own c) ∧ Accepted (H2.own c)

/-- Fewer than a whole window of ids is latched between `c`'s latch and `d`'s look. -/
def FewBetween (pub : String) (c d : ConnID) (H : HubHistory) : Prop :=
  ∀ A l B k C, H = A ++ (some c, l) :: (B ++ (some d, k) :: C) → l.label = .latch →
    k.label = .sendIDs → acceptances pub B < sendIDCap

/-- When `c` has latched, `d`'s look finds the key. -/
theorem not_misses_after {h h' : Hub} (hr : Reachable P h) {H : HubHistory} (hl : Linked h H h')
    (hm : ∀ m ∈ H, HubMove P m) {A B C : HubHistory} {l k : HubSection}
    (hH : H = A ++ (some c, l) :: (B ++ (some d, k) :: C)) (hlatch : Latches pub key l)
    (hfew : FewBetween pub c d H) : ¬ Misses pub key k := by
  rintro ⟨hk, hmiss⟩
  have hcount := hfew A l B k C hH hlatch.1 hk
  subst hH
  obtain ⟨r, hring⟩ := hr.sendRing pub
  obtain ⟨s, hA, hl⟩ := hl.of_append
  obtain ⟨rfl, hrest⟩ := hl.of_cons
  obtain ⟨s', hB, hC⟩ := hrest.of_append
  obtain ⟨rfl, -⟩ := hC.of_cons
  obtain ⟨keys, -, hpre⟩ := ring_along hA (fun m hmA => hm m (List.mem_append_left _ hmA)) hring
  have hpost : l.post.sendIDs.Holds pub ((keys.foldl Ring.push r).push key) := by
    rw [hlatch.2]
    exact hpre.add_self key
  have hBm : ∀ m ∈ B, HubMove P m := by
    intro m hmB
    apply hm
    exact List.mem_append_right _ (List.mem_cons_of_mem _ (List.mem_append_left _ hmB))
  rw [seen_after_latch hB hBm hpost hcount] at hmiss
  cases hmiss

/-- If `c` looks first and latches, `d`'s look finds the key. -/
theorem not_misses_of_first {h h' : Hub} (hr : Reachable P h) {H : HubHistory} (hl : Linked h H h')
    (hm : ∀ m ∈ H, HubMove P m) (hcd : c ≠ d) {t2 : List HubSection} {e e' k : HubSection}
    {H1 H2 H3 : HubHistory} (hH : H = H1 ++ (some c, e) :: (H2 ++ (some d, k) :: H3))
    (he : e.label = .sendIDs) (hk : k.label = .sendIDs)
    (hown : History.own (H2 ++ (some d, k) :: H3) c = t2 ++ [e']) (hlatch : Latches pub key e')
    (hapart : ¬ LooksBetween c d H) (hfew : FewBetween pub c d H) : ¬ Misses pub key k := by
  rw [History.own_append, History.own_cons_of_ne fun heq => hcd (Option.some.inj heq).symm] at hown
  rcases List.eq_nil_or_concat (H3.own c) with hnil | ⟨t, e'', hlast⟩
  · rw [hnil, List.append_nil] at hown
    obtain ⟨A, B, rfl, -, -⟩ := History.split_of_own hown
    have hsplit : H = (H1 ++ (some c, e) :: A) ++ (some c, e') :: (B ++ (some d, k) :: H3) := by
      rw [hH]
      simp
    exact not_misses_after hr hl hm hsplit hlatch hfew
  · rw [hlast, List.concat_eq_append, ← List.append_assoc] at hown
    obtain rfl : e'' = e' := (List.cons.inj (List.append_inj' hown rfl).2).1
    refine absurd ⟨H1 ++ (some c, e) :: H2, H3, k, by rw [hH]; simp, hk, ?_, ?_⟩ hapart
    · refine ⟨e, ?_, he⟩
      rw [History.own_append, History.own_cons_self]
      exact List.mem_append_right _ List.mem_cons_self
    · refine ⟨e'', ?_, hlatch.1⟩
      rw [hlast]
      simp

/-- What an accepted send shows of itself in a history in which `c` speaks for `pub`. -/
theorem Sends.goes {f : Frame} {H : HubHistory} (hs : Sends P c f H)
    (hpub : ∀ m ∈ H, (m.2.pre.conns c).pubkey = pub) (hacc : Accepted (H.own c)) :
    ∃ t1 e t2 e', Goes pub (sendKey f) (H.own c) t1 e t2 e' := by
  obtain ⟨raw, w, w', hrun, hw, hown⟩ := hs.run
  have hgone := (handleSend_gone f raw w () w' hrun (fun _ _ _ => trivial) hw).1
  rw [hown] at hgone
  obtain ⟨pub', t1, e, t2, e', hgoes, e0, he0, hsaw⟩ := hgone hacc
  obtain rfl : pub = pub' := (hpub _ (History.mem_own.mp he0)).symm.trans hsaw
  exact ⟨t1, e, t2, e', hgoes⟩

/-- Two sends with one destination and id on two connections of one key, among whatever else
happens, with fewer than a whole window of ids latched in between. -/
structure TwoSends (P : Platform) (c d : ConnID) (pub : String) (f g : Frame) (h : Hub)
    (H : HubHistory) (h' : Hub) : Prop where
  reachable : Reachable P h
  linked : Linked h H h'
  moves : ∀ m ∈ H, HubMove P m
  distinct : c ≠ d
  first : Sends P c f H
  second : Sends P d g H
  «to» : f.to = g.to
  channel : f.channel = g.channel
  id : f.id = g.id
  pubkeys : ∀ m ∈ H, (m.2.pre.conns c).pubkey = pub ∧ (m.2.pre.conns d).pubkey = pub
  few : FewBetween pub c d H ∧ FewBetween pub d c H

/-- At most one of the two is accepted when neither looks at the accepted ids between the other's
look and latch. -/
theorem send_accepted_once {f g : Frame} {h h' : Hub} {H : HubHistory}
    (hs : TwoSends P c d pub f g h H h') (hapart : ¬ LooksBetween c d H ∧ ¬ LooksBetween d c H) :
    ¬ (Accepted (H.own c) ∧ Accepted (H.own d)) := by
  rintro ⟨hacc, hacc'⟩
  have hkey : sendKey f = sendKey g := by
    unfold sendKey
    rw [hs.to, hs.channel, hs.id]
  obtain ⟨t1, e, t2, e', hc⟩ := hs.first.goes (fun m hmem => (hs.pubkeys m hmem).1) hacc
  obtain ⟨u1, k, u2, k', hd⟩ := hs.second.goes (fun m hmem => (hs.pubkeys m hmem).2) hacc'
  rw [← hkey] at hd
  obtain ⟨H1, H2, hH, -, hown⟩ := History.split_of_own hc.trace
  obtain ⟨K1, K2, hK, -, hown'⟩ := History.split_of_own hd.trace
  -- which of the two looks comes first
  rcases append_cut (hH.symm.trans hK) with ⟨r, rfl, hr⟩ | ⟨r, rfl, rfl⟩
  · cases r with
    | nil =>
      obtain ⟨heq, -⟩ := List.cons.inj hr
      exact hs.distinct (Option.some.inj (Prod.mk.inj heq).1)
    | cons x r =>
      rw [List.cons_append, List.cons.injEq] at hr
      obtain ⟨rfl, rfl⟩ := hr
      exact not_misses_of_first hs.reachable hs.linked hs.moves hs.distinct hH hc.misses.1
        hd.misses.1 hown hc.latches hapart.1 hs.few.1 hd.misses
  · exact not_misses_of_first hs.reachable hs.linked hs.moves hs.distinct.symm hK hd.misses.1
      hc.misses.1 hown' hd.latches hapart.2 hs.few.2 hc.misses

/-! ### Two runs of a send -/

/-- What a send does, its look and its latch included. -/
def resending : Scope where
  writes f := ∃ code, f = setCode code
  sends _ _ := True
  stores _ _ := True
  does e := (e.label = .sendIDs ∧ e.post = e.pre) ∨ ∃ pub key, Latches pub key e

theorem handleSend_resends (f : Frame) (raw : Raw) :
    Emits (Act c resending) (handleSend P c f raw) :=
  Act.handleSend (S := resending) (fun code => ⟨⟨code, rfl⟩, fun _ => trivial⟩)
    (fun _ _ => Or.inl ⟨rfl, rfl⟩) (fun _ pub key _ => Or.inr ⟨pub, key, rfl, rfl⟩)
    (fun _ _ => trivial) (fun _ _ => trivial) raw

namespace Act

variable {e : HubSection}

theorem resends_move (he : Act c resending e) : HubMove P (some c, e) := by
  apply he.mono (fun _ _ => trivial) (fun _ _ _ => trivial) (fun _ _ _ => trivial)
  rintro ⟨label, s, s', pick⟩ (⟨hl, hpost⟩ | ⟨pub, key, hl, hpost⟩)
  · dsimp only at hl hpost
    rw [hl, hpost]
    exact .looked
  · dsimp only at hl hpost
    rw [hl, hpost]
    exact .latched pub key

theorem resends_pubkey (he : Act c resending e) (d : ConnID) :
    (e.post.conns d).pubkey = (e.pre.conns d).pubkey := by
  apply he.keeps (φ := fun k => k.pubkey = (e.pre.conns d).pubkey) ?_ ?_ ?_ rfl
  · rintro k k' hk h
    rw [hk]
    exact h
  · rintro - f ⟨code, rfl⟩ k hk
    exact hk
  · rintro e' (⟨-, hpost⟩ | ⟨pub, key, -, hpost⟩) hk
    · rw [hpost]
      exact hk
    · rw [hpost]
      exact hk

theorem resends_clock (he : Act c resending e) : e.post.clock = e.pre.clock := by
  apply he.clock
  rintro e' (⟨-, hpost⟩ | ⟨pub, key, -, hpost⟩)
  · rw [hpost]
  · rw [hpost]
    rfl

end Act

def Hub.ticked (h : Hub) : Hub := { h with clock := h.clock + 1 }

/-- Nothing happens but the two sends and time passing. -/
def OnlyTwo (c d : ConnID) (H : HubHistory) : Prop :=
  ∀ m ∈ H, (m.1 = some c ∧ Act c resending m.2) ∨ (m.1 = some d ∧ Act d resending m.2) ∨
    ∃ s : Hub, m = (none, ⟨.clock, s, s.ticked, true⟩)

theorem OnlyTwo.move {H : HubHistory} (ho : OnlyTwo c d H) : ∀ m ∈ H, HubMove P m := by
  rintro ⟨who, e⟩ hm
  rcases ho _ hm with ⟨rfl, he⟩ | ⟨rfl, he⟩ | ⟨s, heq⟩
  · exact he.resends_move
  · exact he.resends_move
  · obtain ⟨rfl, rfl⟩ := Prod.mk.inj heq
    exact .quiet (.of_conns (by constructor <;> rfl) rfl) fun _ => List.suffix_refl _

theorem OnlyTwo.pubkey {H : HubHistory} (ho : OnlyTwo c d H) (k : ConnID) :
    ∀ m ∈ H, (m.2.pre.conns k).pubkey = pub → (m.2.post.conns k).pubkey = pub := by
  rintro ⟨who, e⟩ hm hpre
  rcases ho _ hm with ⟨-, he⟩ | ⟨-, he⟩ | ⟨s, heq⟩
  · exact (he.resends_pubkey k).trans hpre
  · exact (he.resends_pubkey k).trans hpre
  · obtain ⟨rfl, rfl⟩ := Prod.mk.inj heq
    exact hpre

open Classical in
theorem OnlyTwo.acceptances_le {H : HubHistory} (ho : OnlyTwo c d H) :
    acceptances pub H ≤ (H.own c).length + (H.own d).length := by
  induction H with
  | nil => exact Nat.zero_le _
  | cons m H ih =>
    have hrest := ih fun m' hm' => ho m' (List.mem_cons_of_mem _ hm')
    have hgrow : ∀ k, (History.own H k).length ≤ (History.own (m :: H) k).length := by
      intro k
      change _ ≤ (History.own ([m] ++ H) k).length
      rw [History.own_append, List.length_append]
      omega
    have hself : ∀ k, m.1 = some k →
        (History.own (m :: H) k).length = (History.own H k).length + 1 := by
      rintro k hk
      obtain ⟨who, e⟩ := m
      obtain rfl : who = some k := hk
      rw [History.own_cons_self, List.length_cons]
    have hc := hgrow c
    have hd := hgrow d
    unfold acceptances at hrest ⊢
    rcases ho m List.mem_cons_self with ⟨hm, -⟩ | ⟨hm, -⟩ | ⟨s, rfl⟩
    · rw [hself c hm, List.countP_cons]
      split <;> omega
    · rw [hself d hm, List.countP_cons]
      split <;> omega
    · rw [List.countP_cons_of_neg]
      · omega
      · rw [decide_eq_true_iff]
        rintro ⟨key, hl, -⟩
        exact Label.noConfusion hl

theorem OnlyTwo.few {H : HubHistory} (ho : OnlyTwo c d H)
    (hlen : (H.own c).length + (H.own d).length < sendIDCap) (i j : ConnID) :
    FewBetween pub i j H := by
  rintro A l B k C hH - -
  have hle : acceptances pub H ≤ _ := ho.acceptances_le
  have hsub : acceptances pub B ≤ acceptances pub H := by
    rw [hH]
    unfold acceptances
    rw [List.countP_append, List.countP_cons, List.countP_append]
    omega
  omega

theorem OnlyTwo.twoSends {f g : Frame} {h h' : Hub} {H : HubHistory} (ho : OnlyTwo c d H)
    (hr : Reachable P h) (hl : Linked h H h') (hcd : c ≠ d) (hf : Sends P c f H)
    (hg : Sends P d g H) (hfg : f.to = g.to ∧ f.channel = g.channel ∧ f.id = g.id)
    (hpub : (h.conns c).pubkey = pub ∧ (h.conns d).pubkey = pub)
    (hlen : (H.own c).length + (H.own d).length < sendIDCap) : TwoSends P c d pub f g h H h' where
  reachable := hr
  linked := hl
  moves := ho.move
  distinct := hcd
  first := hf
  second := hg
  «to» := hfg.1
  channel := hfg.2.1
  id := hfg.2.2
  pubkeys := by
    intro m hm
    have hkept : ∀ k, (h.conns k).pubkey = pub → (m.2.pre.conns k).pubkey = pub := fun k hk =>
      (hl.invariant (I := fun s => (s.conns k).pubkey = pub) hk (ho.pubkey k)).2 m hm
    exact ⟨hkept c hpub.1, hkept d hpub.2⟩
  few := ⟨ho.few hlen c d, ho.few hlen d c⟩

/-- The first agent has dialled again, on connection 2. -/
def reconnected : Hub := twoAgents.admitted lenientPlatform 2 .master "" (sampleHello 0)

theorem reconnected_reachable : Reachable lenientPlatform reconnected := by
  exact twoAgents_reachable.admitted (by decide +kernel) (sampleHello_verifies 0 []) (by simp)

theorem reconnected_pubkeys : (reconnected.conns 0).pubkey = (sampleHello 0).pubkey ∧
    (reconnected.conns 2).pubkey = (sampleHello 0).pubkey := by
  decide +kernel

/-- The sample message, sent on the given connection. -/
private def resend (c : ConnID) : HubProc Unit := handleSend lenientPlatform c sampleDM []

private def short (t : List HubSection) : Bool := decide (Accepted t ∧ t.length < 100)

theorem not_looksBetween_of_after (t t' : List HubSection) (hcd : c ≠ d) :
    ¬ LooksBetween c d (History.of c t ++ History.of d t') ∧
      ¬ LooksBetween d c (History.of c t ++ History.of d t') := by
  constructor
  · rintro ⟨H1, H2, e, hH, -, -, l, hl, -⟩
    rcases History.split_of_append hcd hH with ⟨hdc, -⟩ | ⟨-, hnil⟩
    · exact hcd hdc.symm
    · rw [hnil] at hl
      cases hl
  · rintro ⟨H1, H2, e, hH, -, ⟨l, hl, -⟩, -⟩
    rcases History.split_of_append hcd hH with ⟨-, hnil⟩ | ⟨hcd', -⟩
    · rw [hnil] at hl
      cases hl
    · exact hcd hcd'

theorem send_accepted_once_sample : ∃ h', ∃ H : HubHistory,
    TwoSends lenientPlatform 0 2 (sampleHello 0).pubkey sampleDM sampleDM reconnected H h' ∧
      Accepted (H.own 0) ∧ ¬ (Accepted (H.own 0) ∧ Accepted (H.own 2)) := by
  have hruns : ((alone (resend 0) reconnected).bind fun r => (alone (resend 2) r.2.state).map
      fun r' => short r.2.trace && decide (r'.2.trace.length < 100)) = some true := by
    decide +kernel
  obtain ⟨⟨_, w⟩, hw, hrest⟩ := Option.bind_eq_some_iff.mp hruns
  obtain ⟨⟨_, w'⟩, hw', hshort⟩ := Option.map_eq_some_iff.mp hrest
  obtain ⟨hfirst, hlen'⟩ := Bool.and_eq_true_iff.mp hshort
  obtain ⟨hacc, hlen⟩ := of_decide_eq_true hfirst
  obtain ⟨hl, hG⟩ := linked_alone (handleSend_resends sampleDM []) hw (0 : ConnID)
  obtain ⟨hl', hG'⟩ := linked_alone (handleSend_resends sampleDM []) hw' (2 : ConnID)
  have hown0 : History.own (History.of 0 w.trace ++ History.of 2 w'.trace) 0 = w.trace := by
    rw [History.own_append, History.own_of_self, History.own_of_of_ne (by decide), List.append_nil]
  have hown2 : History.own (History.of 0 w.trace ++ History.of 2 w'.trace) 2 = w'.trace := by
    rw [History.own_append, History.own_of_self, History.own_of_of_ne (by decide), List.nil_append]
  have honly : OnlyTwo 0 2 (History.of 0 w.trace ++ History.of 2 w'.trace) := by
    intro m hm
    rcases List.mem_append.mp hm with hm | hm
    · obtain ⟨e, he, rfl⟩ := List.mem_map.mp hm
      exact .inl ⟨rfl, hG e he⟩
    · obtain ⟨e, he, rfl⟩ := List.mem_map.mp hm
      exact .inr (.inl ⟨rfl, hG' e he⟩)
  have hsends : TwoSends lenientPlatform 0 2 (sampleHello 0).pubkey sampleDM sampleDM reconnected
      (History.of 0 w.trace ++ History.of 2 w'.trace) w'.state := by
    refine honly.twoSends reconnected_reachable (hl.append hl') (by decide)
      ⟨[], _, w, hw, rfl, hown0.symm⟩ ⟨[], _, w', hw', rfl, hown2.symm⟩ ⟨rfl, rfl, rfl⟩
      reconnected_pubkeys ?_
    rw [hown0, hown2]
    have hlen2 := of_decide_eq_true hlen'
    have hcap : (200 : ℕ) ≤ sendIDCap := by decide
    dsimp only at hlen hlen2
    omega
  exact ⟨w'.state, _, hsends, by rwa [hown0], send_accepted_once hsends
    (not_looksBetween_of_after w.trace w'.trace (by decide))⟩

/-- Nothing but time passes until the clock shows 11; then the new connection sends the message. -/
private def inBetween : Hub → Hub := nest Hub.clock Hub.ticked 11 short (resend 2)

/-- The old connection looks at the accepted ids, the new one sends the message from its look to its
latch, and the old one latches: both sends are accepted. -/
theorem same_send_accepted_twice : ∃ h', ∃ H : HubHistory,
    TwoSends lenientPlatform 0 2 (sampleHello 0).pubkey sampleDM sampleDM reconnected H h' ∧
      Accepted (H.own 0) ∧ Accepted (H.own 2) := by
  have hruns : (resend 0 ⟨reconnected, List.replicate 20 ⟨inBetween, true⟩, []⟩).map
      (fun r => short r.2.trace && decide (11 < r.2.state.clock)) = some true := by
    decide +kernel
  obtain ⟨⟨_, w⟩, hw, hend⟩ := Option.map_eq_some_iff.mp hruns
  obtain ⟨hfirst, hclock⟩ := Bool.and_eq_true_iff.mp hend
  obtain ⟨hacc, hlen⟩ := of_decide_eq_true hfirst
  have htime : ∀ e, Act 0 resending e ∨ Act 2 resending e → e.post.clock = e.pre.clock := by
    rintro e (he | he)
    · exact he.resends_clock
    · exact he.resends_clock
  obtain ⟨H, hl, hown0, ⟨s, _, w', hw', hsecond, hown2⟩, hmoves⟩ := nested_history
    (i := (0 : ConnID)) (j := 2) (by decide)
    (handleSend_resends sampleDM []) (handleSend_resends sampleDM []) htime
    (fun _ => rfl) .clock (by decide +kernel) hw (of_decide_eq_true hclock)
  obtain ⟨hacc', hlen'⟩ := of_decide_eq_true hsecond
  have honly : OnlyTwo 0 2 H := hmoves
  refine ⟨w.state, H, ?_, by rwa [hown0], by rwa [hown2]⟩
  refine honly.twoSends reconnected_reachable hl (by decide) ⟨[], _, w, hw, rfl, hown0.symm⟩
    ⟨[], _, w', hw', rfl, hown2.symm⟩ ⟨rfl, rfl, rfl⟩ reconnected_pubkeys ?_
  rw [hown0, hown2]
  have hcap : (200 : ℕ) ≤ sendIDCap := by decide
  dsimp only at hlen hlen'
  omega

end Dap
