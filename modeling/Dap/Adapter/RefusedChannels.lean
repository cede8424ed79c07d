import Dap.Adapter.InviteRuns
import Dap.Adapter.KeyStore

/-! What is left of a channel whose creation the hub refuses (`ensureChannel` in
`adapters/mcp-bridge/src/client.ts`). -/
namespace Dap
namespace KeyStore

variable {s t u : KeyStore}

/-- A channel with a key keeps one, in memory and in the file. -/
def Grows (s t : KeyStore) : Prop := ∀ name,
  (s.channels.get name ≠ none → t.channels.get name ≠ none) ∧
    (s.stored name ≠ none → t.stored name ≠ none)

theorem Grows.refl (s : KeyStore) : s.Grows s := fun _ => ⟨id, id⟩

theorem Grows.trans (h : s.Grows t) (h' : t.Grows u) : s.Grows u :=
  fun name => ⟨(h' name).1 ∘ (h name).1, (h' name).2 ∘ (h name).2⟩

theorem grows_set (s : KeyStore) (ch : ChannelKey) :
    s.Grows { s with channels := s.channels.set ch.name ch } := by
  refine fun name => ⟨fun hname => ?_, id⟩
  show (s.channels.set ch.name ch).get name ≠ none
  rw [JsMap.get_set]
  split
  · exact Option.some_ne_none ch
  · exact hname

theorem grows_persist (s : KeyStore) (name : String) (keys : ChannelKeys) :
    s.Grows (s.persist name keys) := by
  refine fun name' => ⟨id, fun hname => ?_⟩
  obtain ⟨channels, file⟩ := s
  cases file with
  | none => exact hname
  | some file =>
    show (loadChannelKeys (some (persistChannelKeys file (name, keys))))[name']? ≠ none
    change (loadChannelKeys file)[name']? ≠ none at hname
    rw [getElem?_persistChannelKeys]
    unfold Record.assign
    split
    · exact hname
    · rw [GoMap.getElem?_insert_ite]
      split
      · exact Option.some_ne_none keys
      · exact hname

theorem grows_learn (s : KeyStore) (name : String) (keys : ChannelKeys) :
    s.Grows (s.learn name keys) :=
  (s.grows_set ⟨name, keys.pub, some keys.priv⟩).trans (grows_persist _ name keys)

theorem Provisions.grows (h : s.Provisions t) : s.Grows t := by
  cases h with
  | same => exact Grows.refl s
  | creates name keys => exact s.grows_learn name keys

end KeyStore

namespace Bridge

variable {s t : Bridge} {name : String}

theorem clientStep_grows {e : BridgeEvent} (hdrives : BridgeClient.drives e = false) :
    s.keyStore.Grows (s.clientStep e).keyStore := by
  have hchannels := BridgeClient.step_channels (s := s.client) hdrives
  have hnext : s.keyStore.Grows ({ s with client := s.client.step e } : Bridge).keyStore := by
    unfold keyStore
    rw [hchannels]
    cases s.client.learns e with
    | none => exact .refl _
    | some ch => exact s.keyStore.grows_set ch
  unfold clientStep
  dsimp only
  cases s.client.passOf e with
  | some agents =>
    have hdeliver := deliverFrom_provisions { s with client := s.client.step e } agents
      (s.client.step e).pendingInvites.length
    exact hnext.trans hdeliver.grows
  | none =>
    cases s.client.chankeyOf e with
    | none => exact hnext
    | some ch =>
      obtain ⟨name, pub, priv⟩ := ch
      cases priv with
      | none => exact hnext
      | some priv =>
        have hpersist := KeyStore.grows_persist
          ({ s with client := s.client.step e } : Bridge).keyStore name ⟨pub, priv⟩
        exact hnext.trans hpersist

theorem step_grows {e : OpEvent} (h : e.isRestart = false) :
    s.keyStore.Grows (s.step e).keyStore := by
  cases e with
  | restart opts env now => nomatch h
  | call op => exact (call_provisions s op).grows
  | flow n => exact (runFlow_provisions s n).grows
  | pass n => exact (runPass_provisions s n).grows
  | client e =>
    unfold step
    dsimp only
    split
    · exact .refl _
    next hdrives => exact clientStep_grows (Bool.eq_false_iff.mpr hdrives)

theorem run_grows {es : List OpEvent} (h : ∀ e ∈ es, e.isRestart = false) :
    s.keyStore.Grows (s.run es).keyStore := by
  induction es generalizing s with
  | nil => exact .refl _
  | cons e es ih =>
    have hstep := s.step_grows (h e List.mem_cons_self)
    exact hstep.trans (ih fun e' he' => h e' (List.mem_cons_of_mem e he'))

/-- No event of a run brings a key of the channel from outside. -/
def RunsLocal (s : Bridge) (name : String) (es : List OpEvent) : Prop :=
  ∀ pre e, pre ++ [e] <+: es → (s.run pre).IsLocal name e

theorem run_keeps {es : List OpEvent} (h : s.RunsLocal name es) :
    s.keyStore.Keeps name (s.run es).keyStore := by
  induction es using List.reverseRecOn with
  | nil => exact .refl _
  | append_singleton es e ih =>
    rw [run_concat]
    have hbefore : s.RunsLocal name es := fun pre e' hpre =>
      h pre e' (hpre.trans (List.prefix_append _ _))
    exact (ih hbefore).trans (step_keeps (h es e (List.prefix_refl _)))

/-- An `ensureChannel` that is rejected changes no key. -/
theorem keyStore_rejected {n r : ℕ} {ch : ChannelKey} {created : Bool} {w : EnsureFor}
    {e : ClientError} (hflow : s.flows[n]? = some (r, .ensure name ch created w))
    (hrejected : s.client.settled.lookup r = some (.rejected e)) :
    (s.runFlow n).keyStore = s.keyStore := by
  unfold runFlow
  rw [hflow]
  dsimp only
  rw [hrejected]
  exact keyStore_ensureFailed { s with flows := s.flows.eraseIdx n } e w

theorem passOf_of_chankeyOf {c : BridgeClient} {e : BridgeEvent} {ch : ChannelKey}
    (h : c.chankeyOf e = some ch) : c.passOf e = none := by
  unfold BridgeClient.chankeyOf at h
  split at h
  next n =>
    split at h
    next r m htask => simp only [BridgeClient.passOf, htask]
    next => nomatch h
  next => nomatch h

/-- A key that an invite brings replaces what there was, in memory and in the file. -/
theorem keyStore_chankey {e : BridgeEvent} {pub priv : String}
    (hdrives : BridgeClient.drives e = false)
    (h : s.client.chankeyOf e = some ⟨name, pub, some priv⟩) :
    (s.step (.client e)).keyStore = s.keyStore.learn name ⟨pub, priv⟩ := by
  have hchannels := BridgeClient.step_channels (s := s.client) hdrives
  rw [learns_of_chankeyOf h] at hchannels
  unfold step clientStep
  simp only [hdrives, passOf_of_chankeyOf h, h, Bool.false_eq_true, if_false]
  show KeyStore.mk (s.client.step e).channels _ = _
  rw [hchannels]
  rfl

/-- What is left of an unknown channel that was to be created. -/
structure LeavesKey (s : Bridge) (name : String) (w : EnsureFor) : Prop where
  learned : (s.ensureChannel name w).keyStore = s.keyStore.learn name (s.newKeypair s.created)
  stored : s.channelsFile ≠ none → name ≠ "__proto__" →
    (s.ensureChannel name w).keyStore.stored name = some (s.newKeypair s.created)
  rejected : ∀ es n r ch created w' e, let t := (s.ensureChannel name w).run es
    t.flows[n]? = some (r, .ensure name ch created w') →
      t.client.settled.lookup r = some (.rejected e) → (t.runFlow n).keyStore = t.keyStore
  kept : ∀ es, (s.ensureChannel name w).RunsLocal name es →
    (s.ensureChannel name w).keyStore.Keeps name ((s.ensureChannel name w).run es).keyStore
  known : ∀ es, (∀ e ∈ es, e.isRestart = false) →
    ((s.ensureChannel name w).run es).client.channels.get name ≠ none
  replaced : ∀ es e pub priv, let t := (s.ensureChannel name w).run es
    BridgeClient.drives e = false → t.client.chankeyOf e = some ⟨name, pub, some priv⟩ →
      (t.step (.client e)).keyStore = t.keyStore.learn name ⟨pub, priv⟩

/-- The channel that an operation ensures at once. -/
def ensures : Op → Option String
  | .ensureChannel name | .send name _ | .invite name _ | .armInvite _ name => some name
  | _ => none

def welcomedBridge : Bridge :=
  sampleBridge.run [.client .start, .client (.socket 0 .opened),
    .client (.socket 0 (.message .welcome))]

/-- The join of a channel goes out, and the hub refuses it. -/
def opsRefused : List OpEvent :=
  [.client (.task 0), .client (.socket 0 (.message (.error "access_denied"
    "channel creation requires the master secret" (some "ops")))), .flow 0]

end Bridge

end Dap
