import Testbed.Anna.GossipBatches
import Testbed.Anna.RingWalks
import Testbed.Anna.SmallClusters

/-! # Replication changes reach the new replicas

When the factors of a key change, every old replica runs `replication_change_handler`
on the update, and the threads that are now responsible and were not before have to
get the value from one of them.  There are two ways.  An old replica that is no longer
responsible sends the key to all who are.  And when no factor is lowered, the first of
the old replicas sends it to the new ones.

An update may lower a factor and yet end no thread's responsibility: a local factor
of a tier where the key has no server, say.  Then neither applies, and a thread that
another factor of the update has made responsible gets nothing.
`new_replicas_served_iff` says just when all new replicas are served.
-/
namespace Testbed.Anna

open Std Lib
open ServerState List ExtTreeMap

/-! ## Updates of factors -/

namespace KeyReplication

/-- The factors after an update. -/
def updated (rep : KeyReplication) (update : ReplicationFactor) : KeyReplication :=
  update.localValues.foldl setLocal (update.globalValues.foldl setGlobal rep)

/-- One of the values of the update is less than the factor it replaces. -/
def Lowers (rep : KeyReplication) (update : ReplicationFactor) : Prop :=
  (∃ pre entry post, update.globalValues = pre ++ entry :: post ∧
    entry.2 < (pre.foldl setGlobal rep).globalAt entry.1) ∨
  ∃ pre entry post, update.localValues = pre ++ entry :: post ∧
    entry.2 < (pre.foldl setLocal rep).localAt entry.1

end KeyReplication

namespace ServerState
variable {srv : Server}

theorem exists_split_of_rec {σ α : Type} {set : σ → α → σ} {found : σ → α → Bool}
    (loop : σ → List α → Bool) (hnil : ∀ t, loop t [] = false)
    (hcons : ∀ t a l, loop t (a :: l) = (found t a || loop (set t a) l)) {t : σ} {l : List α} :
    loop t l = true ↔ ∃ pre a post, l = pre ++ a :: post ∧ found (pre.foldl set t) a = true := by
  induction l generalizing t with
  | nil => simp [hnil]
  | cons first l ih =>
    rw [hcons, Bool.or_eq_true, ih]
    constructor
    · rintro (hfirst | ⟨pre, a, post, rfl, hfound⟩)
      · exact ⟨[], first, l, rfl, hfirst⟩
      · exact ⟨first :: pre, a, post, rfl, hfound⟩
    · rintro ⟨_ | ⟨_, pre⟩, a, post, heq, hfound⟩
      · cases heq
        exact .inl hfound
      · cases heq
        exact .inr ⟨pre, a, post, rfl, hfound⟩

variable {rep : KeyReplication} {s s' : ServerState srv} {keyRep : ReplicationFactor} {key : Key}
  {updates : List ReplicationFactor} {h : Handover} {address : Address}
  {threads orig : List ServerThread}

theorem lowers_iff {update : ReplicationFactor} :
    (lowersGlobal rep update.globalValues || lowersLocal rep update.localValues) = true ↔
      rep.Lowers update := by
  rw [Bool.or_eq_true, exists_split_of_rec lowersGlobal (fun _ => rfl) fun _ _ _ => rfl,
    exists_split_of_rec lowersLocal (fun _ => rfl) fun _ _ _ => rfl]
  simp only [decide_eq_true_iff]
  rfl

instance (rep : KeyReplication) (update : ReplicationFactor) : Decidable (rep.Lowers update) :=
  decidable_of_iff _ lowers_iff

theorem decrement_iff (hrep : s.keyReplicationMap[keyRep.key]? = some rep) :
    s.decrement keyRep = true ↔ rep.Lowers keyRep := by
  rw [← lowers_iff, decrement, getD_eq_getD_getElem?, hrep, Option.getD_some]

theorem getElem?_foldl_insert_self {α : Type} (f : KeyReplication → α → KeyReplication)
    (l : List α) {m : ExtTreeMap Key KeyReplication} (hrep : m[key]? = some rep) :
    (l.foldl (fun m a => m.insert key (f (m.getD key default) a)) m)[key]? =
      some (l.foldl f rep) := by
  induction l generalizing m rep with
  | nil => exact hrep
  | cons _ _ ih =>
    refine ih ?_
    rw [getElem?_insert_self, getD_eq_getD_getElem?, hrep, Option.getD_some]

theorem updateFactors_self (hrep : s.keyReplicationMap[keyRep.key]? = some rep) :
    (s.updateFactors keyRep).keyReplicationMap[keyRep.key]? = some (rep.updated keyRep) :=
  getElem?_foldl_insert_self KeyReplication.setLocal _
    (getElem?_foldl_insert_self KeyReplication.setGlobal _ hrep)

/-! ## What one replica sends -/

/-- No PUT is among the messages. -/
def NoPut (messages : List (Address × Message)) : Prop :=
  ∀ message ∈ messages, ∀ request, message.2 = .keyRequest request → request.type ≠ .put

theorem NoPut.append {messages messages' : List (Address × Message)} (h : NoPut messages)
    (h' : NoPut messages') : NoPut (messages ++ messages') := fun message hmessage =>
  (mem_append.mp hmessage).elim (h message) (h' message)

theorem noPut_lookup {tiers : List Tier} {lookup : Lookup}
    (h : s.getResponsibleThreads key tiers = .ok lookup) : NoPut lookup.sent := by
  intro message hmessage _ hrequest
  obtain ⟨_, hrequest', htype⟩ := lookup_isGet h message hmessage
  rw [hrequest'] at hrequest
  cases hrequest
  rw [htype]
  decide

variable {notices : List (Address × Message)}

theorem noPut_notices (h : ∀ message ∈ notices, message.2 = .replicationChange updates) :
    NoPut notices := by
  intro message hmessage _ hrequest
  rw [h message hmessage] at hrequest
  cases hrequest

theorem changeKey_sent {h' : Handover} (hstep : changeKey (s, h) keyRep = .ok (s', h')) :
    ∃ asked, s'.sent = s.sent ++ asked ∧ NoPut asked := by
  have hnone : NoPut [] := fun _ hmessage => nomatch hmessage
  unfold changeKey at hstep
  dsimp only at hstep
  split at hstep
  · obtain ⟨orig, horig, hstep⟩ := bind_eq_ok.mp hstep
    split at hstep
    · obtain ⟨lookup, hlookup, hstep⟩ := bind_eq_ok.mp hstep
      refine ⟨orig.sent ++ lookup.sent, ?_, (noPut_lookup horig).append (noPut_lookup hlookup)⟩
      have hsent : (((s.afterLookup orig).updateFactors keyRep).afterLookup lookup).sent =
          s.sent ++ (orig.sent ++ lookup.sent) := append_assoc _ _ _
      split at hstep
      · obtain ⟨_, -, hstep⟩ := bind_eq_ok.mp hstep
        cases hstep
        exact hsent
      · cases hstep
        exact hsent
    · cases hstep
      exact ⟨orig.sent, rfl, noPut_lookup horig⟩
  · cases hstep
    exact ⟨[], (append_nil _).symm, hnone⟩

theorem changeKeys_sent {acc acc' : ServerState srv × Handover}
    (h : updates.foldlM changeKey acc = .ok acc') :
    ∃ asked, acc'.1.sent = acc.1.sent ++ asked ∧ NoPut asked := by
  refine foldlM_invariant (fun t => ∃ asked, t.1.sent = acc.1.sent ++ asked ∧ NoPut asked)
    (fun keyRep _ t t' ht hstep => ?_)
    ⟨[], (append_nil _).symm, fun _ hmessage => nomatch hmessage⟩ h
  obtain ⟨asked, hsent, hasked⟩ := ht
  obtain ⟨asked', hsent', hasked'⟩ := changeKey_sent hstep
  exact ⟨asked ++ asked', by rw [hsent', hsent, append_assoc], hasked.append hasked'⟩

theorem changeKey_other {h' : Handover} (hstep : changeKey (s, h) keyRep = .ok (s', h'))
    (hkey : key ≠ keyRep.key) :
    h'.addrKeysetMap.Has address key ↔ h.addrKeysetMap.Has address key := by
  have hinsert : ∀ (m : AddressKeysetMap) (threads : List ServerThread),
      (m.insertKeyFor threads keyRep.key).Has address key ↔ m.Has address key := by
    intro m _
    rw [AddressKeysetMap.has_insertKeyFor]
    exact or_iff_right fun ⟨_, _, _, heq⟩ => hkey heq.symm
  unfold changeKey at hstep
  dsimp only at hstep
  split at hstep
  · obtain ⟨_, -, hstep⟩ := bind_eq_ok.mp hstep
    split at hstep
    · obtain ⟨_, -, hstep⟩ := bind_eq_ok.mp hstep
      split at hstep
      · obtain ⟨_, -, hstep⟩ := bind_eq_ok.mp hstep
        cases hstep
        rw [hinsert]
        split
        · rfl
        · exact hinsert _ _
      · cases hstep
        rfl
    · cases hstep
      rfl
  · cases hstep
    rfl

theorem changeKeys_other {acc acc' : ServerState srv × Handover}
    (h : updates.foldlM changeKey acc = .ok acc') (hkey : key ∉ updates.map (·.key)) :
    acc'.2.addrKeysetMap.Has address key ↔ acc.2.addrKeysetMap.Has address key := by
  refine foldlM_invariant
    (fun t => t.2.addrKeysetMap.Has address key ↔ acc.2.addrKeysetMap.Has address key)
    (fun keyRep hmem t t' ht hstep => ?_) Iff.rfl h
  refine (changeKey_other hstep ?_).trans ht
  rintro rfl
  exact hkey (mem_map_of_mem hmem)

/-- The update is about a data key that the thread stores, and both lookups of the
handler end. -/
structure Concerns (s : ServerState srv) (keyRep : ReplicationFactor) (rep : KeyReplication)
    (orig threads : List ServerThread) : Prop where
  data : isMetadata keyRep.key = .ok false
  known : s.keyReplicationMap[keyRep.key]? = some rep
  before : responsibleThreads s.toRingMaps keyRep.key rep kAllTiers = .ok orig
  after : responsibleThreads s.toRingMaps keyRep.key (rep.updated keyRep) kAllTiers = .ok threads

/-- What is collected for the key: all who are responsible now if this thread is not,
and the new ones that it has to serve. -/
def handed (srv : Server) (h : Handover) (key : Key) (threads new : List ServerThread) : Handover :=
  let h := if srv.wt.isIn threads then h else
    ⟨h.addrKeysetMap.insertKeyFor threads key, h.removeSet.insert key⟩
  { h with addrKeysetMap := h.addrKeysetMap.insertKeyFor new key }

theorem has_handed {new : List ServerThread} :
    (handed srv h key threads new).addrKeysetMap.Has address key ↔ h.addrKeysetMap.Has address key ∨
        (srv.wt.isIn threads = false ∧ ∃ thread ∈ threads, thread.gossipConnectAddress = address) ∨
        ∃ thread ∈ new, thread.gossipConnectAddress = address := by
  have hinsert : ∀ (m : AddressKeysetMap) (l : List ServerThread),
      (m.insertKeyFor l key).Has address key ↔
        (∃ thread ∈ l, thread.gossipConnectAddress = address) ∨ m.Has address key := by
    intro m l
    rw [AddressKeysetMap.has_insertKeyFor]
    simp only [and_true]
  rw [handed, hinsert]
  cases hin : srv.wt.isIn threads with
  | true => simp [or_comm]
  | false =>
    simp only [Bool.false_eq_true, if_false, hinsert, true_and]
    exact or_rotate.trans or_left_comm

theorem changeKey_concerns (hc : s.Concerns keyRep rep orig threads)
    (hstored : keyRep.key ∈ s.storedKeyMap) (h : Handover) :
    changeKey (s, h) keyRep = do
      let new ← newThreads srv (s.decrement keyRep) orig threads
      return (s.updateFactors keyRep, handed srv h keyRep.key threads new) := by
  have horig : s.Replicas keyRep.key orig := ⟨hc.data, rep, hc.known, hc.before⟩
  have hthreads : (s.updateFactors keyRep).Replicas keyRep.key threads :=
    ⟨hc.data, _, updateFactors_self hc.known, hc.after⟩
  have hchanged : (s.updateFactors keyRep).changeStored h keyRep.key (s.decrement keyRep) orig = do
        let new ← newThreads srv (s.decrement keyRep) orig threads
        return (s.updateFactors keyRep, handed srv h keyRep.key threads new) := by
    rw [changeStored, hthreads.lookup]
    simp only [bind, Except.bind, if_true, afterLookup_known]
    rfl
  rw [changeKey]
  simp only [if_pos hstored, horig.lookup, bind, Except.bind, afterLookup_known, if_true]
  exact hchanged

/-- In the step from `s` to `s'`, a PUT with a value of the key is sent to the
address. -/
def SendsPut (s s' : ServerState srv) (address : Address) (key : Key) : Prop :=
  ∃ messages, s'.sent = s.sent ++ messages ∧ s.SendsKey messages address key

theorem removeChanged_sent {keys : List Key} (h : keys.foldlM removeChanged s = .ok s') :
    s'.sent = s.sent := by
  refine foldlM_invariant (fun t => t.sent = s.sent) (fun key _ t t' ht hstep => ?_) rfl h
  obtain ⟨_, hremove, hstep⟩ := bind_eq_ok.mp hstep
  obtain ⟨_, -, hremove⟩ := bind_eq_ok.mp hremove
  cases hremove
  cases hstep
  exact ht

variable {handover : Handover}

/-- **What one replica sends**: a PUT goes out to the addresses of the batch. -/
theorem sendsPut_iff_has (hread : s.ReadableKey key) {s₁ s₂ : ServerState srv}
    (hnotices : NoPut notices)
    (hfold : updates.foldlM changeKey (s.send notices, {}) = .ok (s₁, handover))
    (hgossip : s₁.sendGossip handover.addrKeysetMap = .ok s₂) (hsent : s'.sent = s₂.sent)
    (address : Address) : s.SendsPut s' address key ↔ handover.addrKeysetMap.Has address key := by
  obtain ⟨asked, hasked, hnoPut⟩ := changeKeys_sent hfold
  obtain ⟨⟨_, _, _, hs₁, -⟩, -⟩ := changeKeys_spec hfold
  obtain ⟨_, messages, ⟨_, -, hs₃⟩, hs₂, -, hnew⟩ := sendGossip_spec hgossip
  have hs₂sent : s₂.sent = s₁.sent ++ messages := by
    rw [hs₂, hs₃]
    rfl
  have hall : s'.sent = s.sent ++ ((notices ++ asked) ++ messages) := by
    rw [hsent, hs₂sent, hasked]
    simp only [send, append_assoc]
  have hread₁ : s₁.ReadableKey key := by
    rw [hs₁]
    exact hread
  constructor
  · rintro ⟨_, hmessages', request, tuple, hmem, htype, htuple, hof⟩
    rw [hall] at hmessages'
    rw [← append_cancel_left hmessages'] at hmem
    rcases mem_append.mp hmem with hmem | hmem
    · exact absurd htype ((hnotices.append hnoPut) _ hmem request rfl)
    · obtain ⟨-, -, -, -, -, -, -, hkey, -⟩ := hof
      rw [← hkey]
      exact sendGossip_only hgossip hs₂sent hmem tuple htuple
  · intro hhas
    obtain ⟨request, tuple, hmem, htype, htuple, hof⟩ := hnew address key hhas hread₁
    refine ⟨_, hall, request, tuple, mem_append_right _ hmem, htype, htuple, ?_⟩
    rw [hs₁] at hof
    exact hof

theorem Concerns.asks {t : ServerState srv} {changed : Key → Prop}
    (hc : s.Concerns keyRep rep orig threads) (h : Asks changed s t) (hkey : ¬ changed keyRep.key) :
    t.Concerns keyRep rep orig threads := by
  obtain ⟨_, _, _, rfl, -, hsame⟩ := h
  exact ⟨hc.data, (hsame _ hkey).trans hc.known, hc.before, hc.after⟩

/-- The threads to serve, with the flag of the handler. -/
def Serving (srv : Server) (keyRep : ReplicationFactor) (rep : KeyReplication)
    (orig threads new : List ServerThread) : Prop :=
  ∃ lower, (lower = true ↔ rep.Lowers keyRep) ∧ newThreads srv lower orig threads = .ok new

/-- **What one replica collects** for a key that the message mentions once. -/
theorem has_collected {s₁ : ServerState srv} (hc : s.Concerns keyRep rep orig threads)
    (hstored : keyRep.key ∈ s.storedKeyMap) (hmem : keyRep ∈ updates)
    (honce : (updates.map (·.key)).count keyRep.key = 1)
    (hfold : updates.foldlM changeKey (s, {}) = .ok (s₁, handover)) :
    ∃ new, Serving srv keyRep rep orig threads new ∧
      ∀ address, handover.addrKeysetMap.Has address keyRep.key ↔
        (srv.wt.isIn threads = false ∧ ∃ thread ∈ threads, thread.gossipConnectAddress = address) ∨
          ∃ thread ∈ new, thread.gossipConnectAddress = address := by
  obtain ⟨pre, post, rfl⟩ := append_of_mem hmem
  rw [map_append, map_cons, count_append, count_cons_self] at honce
  have hpre : keyRep.key ∉ pre.map (·.key) := count_eq_zero.mp (by omega)
  have hpost : keyRep.key ∉ post.map (·.key) := count_eq_zero.mp (by omega)
  obtain ⟨⟨t, h⟩, hbefore, hfold⟩ := foldlM_append_eq_ok.mp hfold
  obtain ⟨⟨_, _⟩, hstep, hafter⟩ := foldlM_cons_eq_ok.mp hfold
  have hasks := (changeKeys_spec hbefore).1
  have ht := hc.asks hasks hpre
  have htstored : keyRep.key ∈ t.storedKeyMap := by
    obtain ⟨_, _, _, rfl, -⟩ := hasks
    exact hstored
  rw [changeKey_concerns ht htstored] at hstep
  obtain ⟨new, hnew, hstep⟩ := bind_eq_ok.mp hstep
  cases hstep
  refine ⟨new, ⟨_, decrement_iff ht.known, hnew⟩, fun address => ?_⟩
  -- the updates before and after it leave the key's part of the batch alone
  rw [changeKeys_other hafter hpost, has_handed, changeKeys_other hbefore hpre]
  exact or_iff_right AddressKeysetMap.not_has_empty

theorem newThreads_returns (srv : Server) (lower : Bool) (threads : List ServerThread)
    (horig : orig ≠ []) : ∃ new, newThreads srv lower orig threads = .ok new := by
  unfold newThreads
  split
  · exact ⟨[], rfl⟩
  · cases orig with
    | nil => exact absurd rfl horig
    | cons => exact ⟨_, rfl⟩

theorem removeChanged_returns_iff : (∃ s', s.removeChanged key = .ok s') ↔ s.Removable key := by
  rw [← removeKey_returns_iff]
  constructor
  · rintro ⟨_, h⟩
    obtain ⟨s₁, hremove, -⟩ := bind_eq_ok.mp h
    exact ⟨s₁, hremove⟩
  · rintro ⟨s₁, hremove⟩
    exact ⟨_, bind_eq_ok.mpr ⟨s₁, hremove, rfl⟩⟩

theorem replicationChangeHandler_returns (hc : s.Concerns keyRep rep orig threads)
    (hread : s.ReadableKey keyRep.key) (horig : orig ≠ []) :
    ∃ s', s.replicationChangeHandler [keyRep] = .ok s' := by
  let t := if srv.wt.tid = 0 then
    s.send ((otherWorkers srv).map fun th =>
      (th.replicationChangeConnectAddress, .replicationChange [keyRep])) else s
  have htc : t.Concerns keyRep rep orig threads := by
    unfold t
    split
    · exact ⟨hc.data, hc.known, hc.before, hc.after⟩
    · exact hc
  have htread : t.Removable keyRep.key := by
    unfold t
    split
    · exact hread.removable
    · exact hread.removable
  obtain ⟨property, hstored, htype⟩ := htread
  have hmem := mem_iff_isSome_getElem?.mpr (Option.isSome_of_eq_some hstored)
  obtain ⟨new, hnew⟩ := newThreads_returns srv (t.decrement keyRep) threads horig
  have hfold : [keyRep].foldlM changeKey (t, {}) =
      .ok (t.updateFactors keyRep, handed srv {} keyRep.key threads new) := by
    refine foldlM_cons_eq_ok.mpr ⟨_, ?_, rfl⟩
    rw [changeKey_concerns htc hmem, hnew]
    rfl
  have hothers : ∀ {key}, key ≠ keyRep.key → key ∉ [keyRep].map (·.key) := by
    intro key hkey
    simpa using hkey
  obtain ⟨s₂, hgossip⟩ : ∃ s₂, (t.updateFactors keyRep).sendGossip
      (handed srv {} keyRep.key threads new).addrKeysetMap = .ok s₂ := by
    refine sendGossip_returns_iff.mpr fun address key hhas => ?_
    by_cases hkey : key = keyRep.key
    · subst hkey
      intro _ hstored'
      rw [← Option.some.inj (hstored.symm.trans hstored')]
      exact htype
    · exact absurd ((changeKeys_other hfold (hothers hkey)).mp hhas) AddressKeysetMap.not_has_empty
  obtain ⟨_, _, ⟨_, -, hs₃⟩, hs₂, -⟩ := sendGossip_spec hgossip
  obtain ⟨s', hremove⟩ : ∃ s', (handed srv {} keyRep.key threads new).removeSet.toList.foldlM
      removeChanged s₂ = .ok s' := by
    refine (foldlM_remove_returns_iff (fun t key => removeChanged_returns_iff)
      (fun t t' key => removeChanged_stored) (nodup_toList _)).mpr fun key hkey => ?_
    by_cases heq : key = keyRep.key
    · subst heq
      rw [hs₂, hs₃]
      exact ⟨property, hstored, htype⟩
    · have hnone := ((changeKeys_spec hfold).2.2.1 key (hothers heq)).mp
        (ExtTreeSet.mem_toList.mp hkey)
      exact absurd hnone ExtTreeSet.not_mem_empty
  exact ⟨s', bind_eq_ok.mpr ⟨_, hfold, bind_eq_ok.mpr ⟨s₂, hgossip, hremove⟩⟩⟩

end ServerState

/-! ## The old replicas together -/

/-- A thread of a cluster, whose tiers differ in the number of threads. -/
structure Peer (cfg : Config) extends Worker where
  selfTier : Tier
  threadNum : Nat

/-- The thread, with what it shares with the others. -/
def Peer.server {cfg : Config} (peer : Peer cfg) : Server :=
  peer.toWorker.server { cfg with selfTier := peer.selfTier, threadNum := peer.threadNum }

/-- A thread of a cluster in some state. -/
structure Replica (cfg : Config) extends Peer cfg where
  state : ServerState toPeer.server

namespace Replica
variable {cfg : Config}

/-- The thread knows these rings and these factors of the key. -/
structure Knows (replica : Replica cfg) (rings : RingMaps cfg) (key : Key) (rep : KeyReplication) :
    Prop where
  globalRings : replica.state.globalHashRings = rings.globalHashRings
  localRings : replica.state.localHashRings = rings.localHashRings
  factors : replica.state.keyReplicationMap[key]? = some rep

/-- The thread runs the handler on the message, and sends a PUT with its value of the
key to `thread`. -/
def Sends (replica : Replica cfg) (updates : List ReplicationFactor) (thread : ServerThread)
    (key : Key) : Prop :=
  ∃ s', replica.state.replicationChangeHandler updates = .ok s' ∧
    replica.state.SendsPut s' thread.gossipConnectAddress key

variable {replica : Replica cfg} {rings : RingMaps cfg}

theorem Knows.responsibleThreads (h : replica.Knows rings key rep) (rep' : KeyReplication)
    (tiers : List Tier) :
    Anna.responsibleThreads replica.state.toRingMaps key rep' tiers =
      Anna.responsibleThreads rings key rep' tiers := by
  have hrings : replica.state.toRingMaps = ⟨rings.globalHashRings, rings.localHashRings⟩ := by
    rw [← h.globalRings, ← h.localRings]
  rw [hrings]
  induction tiers with
  | nil => rfl
  | cons _ _ ih =>
    rw [Anna.responsibleThreads, Anna.responsibleThreads, ih]
    rfl

theorem Knows.concerns (h : replica.Knows rings keyRep.key rep)
    (hdata : isMetadata keyRep.key = .ok false)
    (horig : Anna.responsibleThreads rings keyRep.key rep kAllTiers = .ok orig)
    (hthreads : Anna.responsibleThreads rings keyRep.key (rep.updated keyRep) kAllTiers =
      .ok threads) : replica.state.Concerns keyRep rep orig threads :=
  ⟨hdata, h.factors, (h.responsibleThreads _ _).trans horig,
    (h.responsibleThreads _ _).trans hthreads⟩

/-- A replica that is no longer responsible sends the key to all who are, and the one
that has to serve the new ones sends it to them. -/
theorem sends_iff (hc : replica.state.Concerns keyRep rep orig threads)
    (hread : replica.state.ReadableKey keyRep.key) (hmem : keyRep ∈ updates)
    (honce : (updates.map (·.key)).count keyRep.key = 1)
    (hruns : ∃ s', replica.state.replicationChangeHandler updates = .ok s') :
    ∃ new, Serving replica.server keyRep rep orig threads new ∧
      ∀ thread, replica.Sends updates thread keyRep.key ↔ (replica.wt.isIn threads = false ∧
          ∃ th ∈ threads, th.gossipConnectAddress = thread.gossipConnectAddress) ∨
        ∃ th ∈ new, th.gossipConnectAddress = thread.gossipConnectAddress := by
  obtain ⟨s', hs'⟩ := hruns
  obtain ⟨notices, _, _, _, hnotices, hfold, hgossip, hremove⟩ := replicationChangeHandler_eq_ok hs'
  have hstored : keyRep.key ∈ replica.state.storedKeyMap := by
    obtain ⟨_, -, hstored, -⟩ := hread
    exact mem_iff_isSome_getElem?.mpr (Option.isSome_of_eq_some hstored)
  have hc' : (replica.state.send notices).Concerns keyRep rep orig threads :=
    ⟨hc.data, hc.known, hc.before, hc.after⟩
  obtain ⟨new, hserving, hhas⟩ := has_collected hc' hstored hmem honce hfold
  refine ⟨new, hserving, fun thread => ?_⟩
  refine Iff.trans ?_ (hhas thread.gossipConnectAddress)
  rw [← sendsPut_iff_has hread (noPut_notices hnotices) hfold hgossip (removeChanged_sent hremove)]
  constructor
  · rintro ⟨_, hs'', hsends⟩
    rw [hs'] at hs''
    cases hs''
    exact hsends
  · exact fun hsends => ⟨s', hs', hsends⟩

end Replica

/-- The threads that are responsible under the old factors, each in its state: they
know the same rings and factors, and can read their value of the key. -/
structure OldReplicas {cfg : Config} (rings : RingMaps cfg) (key : Key) (rep : KeyReplication)
    (orig : List ServerThread) (replica : ServerThread → Replica cfg) : Prop where
  thread : ∀ th ∈ orig, (replica th).wt.id = th.id
  knows : ∀ th ∈ orig, (replica th).Knows rings key rep
  readable : ∀ th ∈ orig, (replica th).state.ReadableKey key

/-- **New replicas are served**, by one of the old ones, just if there are none, or an
old replica is no longer responsible, or there is an old replica and the update lowers
no factor.  The message may have updates of other keys; one that has not always gets
processed to its end. -/
theorem new_replicas_served_iff {cfg : Config} {rings : RingMaps cfg}
    {keyRep : ReplicationFactor} {rep : KeyReplication} {orig threads : List ServerThread}
    {replica : ServerThread → Replica cfg} {updates : List ReplicationFactor}
    (hdata : isMetadata keyRep.key = .ok false)
    (horig : responsibleThreads rings keyRep.key rep kAllTiers = .ok orig)
    (hthreads : responsibleThreads rings keyRep.key (rep.updated keyRep) kAllTiers = .ok threads)
    (hreplicas : OldReplicas rings keyRep.key rep orig replica)
    (hmem : keyRep ∈ updates) (honce : (updates.map (·.key)).count keyRep.key = 1) :
    (updates = [keyRep] → ∀ th ∈ orig, ∃ s',
      (replica th).state.replicationChangeHandler updates = .ok s') ∧
    ((∀ th ∈ orig, ∃ s', (replica th).state.replicationChangeHandler updates = .ok s') →
      ((∀ thread ∈ threads, thread.isIn orig = false →
          ∃ th ∈ orig, (replica th).Sends updates thread keyRep.key) ↔
        (∀ thread ∈ threads, thread.isIn orig = true) ∨
        (∃ th ∈ orig, th.isIn threads = false) ∨
        (orig ≠ [] ∧ ¬ rep.Lowers keyRep))) := by
  have hconcerns : ∀ th ∈ orig, (replica th).state.Concerns keyRep rep orig threads :=
    fun th hth => (hreplicas.knows th hth).concerns hdata horig hthreads
  refine ⟨?_, fun hruns => ?_⟩
  · rintro rfl th hth
    exact replicationChangeHandler_returns (hconcerns th hth)
      (hreplicas.readable th hth) (ne_nil_of_mem hth)
  · have hsends := fun th hth => Replica.sends_iff (hconcerns th hth) (hreplicas.readable th hth)
      hmem honce (hruns th hth)
    constructor
    · intro hserved
      by_contra hcond
      simp only [not_or, not_and_or, not_not, not_forall, not_exists] at hcond
      obtain ⟨⟨thread, hthread, hnew⟩, hstay, hlower⟩ := hcond
      obtain ⟨th, hth, hsend⟩ := hserved thread hthread (by simpa using hnew)
      obtain ⟨new, ⟨lower, hflag, hserving⟩, hiff⟩ := hsends th hth
      -- every old replica stays, and the flag is set: the replica sends to nobody
      have hlowers := hflag.mpr (hlower.resolve_left (ne_nil_of_mem hth))
      rw [hlowers] at hserving
      cases hserving
      rcases (hiff thread).mp hsend with ⟨hgone, -⟩ | ⟨_, hnone, -⟩
      · rw [ServerThread.isIn_congr (hreplicas.thread th hth)] at hgone
        exact (hstay th).elim (absurd hth) (absurd hgone)
      · exact not_mem_nil hnone
    · rintro (hnone | ⟨th, hth, hgone⟩ | ⟨hsome, hraises⟩) thread hthread hnew
      · rw [hnone thread hthread] at hnew
        cases hnew
      · obtain ⟨new, -, hiff⟩ := hsends th hth
        refine ⟨th, hth, (hiff thread).mpr (.inl ⟨?_, thread, hthread, rfl⟩)⟩
        rw [ServerThread.isIn_congr (hreplicas.thread th hth)]
        exact hgone
      · obtain ⟨first, _, hfirst⟩ := exists_cons_of_ne_nil hsome
        have hth := hfirst ▸ mem_cons_self
        obtain ⟨_, ⟨lower, hflag, hserving⟩, hiff⟩ := hsends first hth
        have hlower : lower = false := by
          rw [← Bool.not_eq_true, hflag]
          exact hraises
        have hid : first.id = (replica first).server.wt.id := (hreplicas.thread first hth).symm
        rw [hlower, hfirst, newThreads, if_neg Bool.false_ne_true] at hserving
        have hlist := Except.ok.inj hserving
        rw [if_pos hid, ← hfirst] at hlist
        refine ⟨first, hth, (hiff thread).mpr (.inr ⟨thread, ?_, rfl⟩)⟩
        rw [← hlist, mem_filter, hnew]
        exact ⟨hthread, rfl⟩

/-! ## Two memory nodes -/

section Two

variable (cfg : Config)

/-- The memory nodes `a` and `b`, with one thread each, and no disk node. -/
def twoRings : RingMaps cfg where
  globalHashRings := Function.update (fun _ => default) .memory (joinedRing cfg)
  localHashRings _ := (HashRing.insert default "B" "b" 0 0).1

/-- One replica in the memory tier, and none in the disk tier. -/
def oneInMemory : KeyReplication where
  globalReplication tier := some (if tier = .memory then 1 else 0)
  localReplication _ := some 1

/-- A second replica in the memory tier. -/
def raise : ReplicationFactor := { key := "k", globalValues := [(.memory, 2)] }

/-- The same, and no thread on the nodes of the disk tier, where the key has none. -/
def raiseAndLower : ReplicationFactor := { raise with localValues := [(.disk, 0)] }

theorem twoRings_memory : (twoRings cfg).globalHashRings .memory = joinedRing cfg := by
  simp only [twoRings, Function.update_self]

theorem twoRings_local (tier : Tier) :
    (twoRings cfg).localHashRings tier = (HashRing.insert default "B" "b" 0 0).1 := by
  rw [twoRings]

variable {cfg : Config} (hhash : cfg.strHash = initialHash)
include hhash

theorem twoRings_threads {servers : List ServerThread}
    (hservers : responsibleGlobal "k" (rep.globalAt .memory) (joinedRing cfg) = .ok servers)
    (hlocal : rep.localAt .memory = 1) :
    responsibleThreads (twoRings cfg) "k" rep kAllTiers =
      .ok (servers.map fun server => ⟨server.publicIp, server.privateIp, 0, 0⟩) := by
  have hslot := hhash ▸ oneSlot_local "B" "b"
  have htids : responsibleLocal "k" 1
      ((HashRing.insert default "B" "b" 0 0).1 : LocalHashRing cfg) =
        .ok (ExtTreeSet.insert ∅ 0) := by
    rw [responsibleLocal, HashRing.turn_insert_default 0 hslot]
    rfl
  have hlist : ((ExtTreeSet.insert ∅ 0 : ExtTreeSet Nat)).toList = [0] := by decide
  have hmemory : tierThreads "k" (rep.globalAt .memory) 1 ((twoRings cfg).globalHashRings .memory)
      ((twoRings cfg).localHashRings .memory) =
        .ok (servers.map fun server => ⟨server.publicIp, server.privateIp, 0, 0⟩) := by
    rw [twoRings_memory, twoRings_local, tierThreads_of_eq hservers fun _ => htids, hlist]
    exact congrArg Except.ok (flatMap_pure_eq_map _ _)
  have hdisk : tierThreads "k" (rep.globalAt .disk) (rep.localAt .disk)
      ((twoRings cfg).globalHashRings .disk) ((twoRings cfg).localHashRings .disk) = .ok [] := by
    have hturn : (default : GlobalHashRing cfg).turn "k" = [] := (turn_eq_nil_iff "k").mpr rfl
    rfl
  rw [kAllTiers, responsibleThreads, hlocal, hmemory, responsibleThreads_one, hdisk]
  exact congrArg Except.ok (append_nil _)

theorem twoRings_before :
    responsibleThreads (twoRings cfg) "k" oneInMemory kAllTiers = .ok [⟨"A", "a", 0, 0⟩] := by
  have hservers : responsibleGlobal "k" (oneInMemory.globalAt .memory) (joinedRing cfg) =
      .ok [⟨"A", "a", 0, 0⟩] := by
    rw [responsibleGlobal, joinedRing_turn hhash]
    decide
  exact twoRings_threads hhash hservers rfl

theorem twoRings_after (hglobal : rep.globalAt .memory = 2) (hlocal : rep.localAt .memory = 1) :
    responsibleThreads (twoRings cfg) "k" rep kAllTiers =
      .ok [⟨"A", "a", 0, 0⟩, ⟨"B", "b", 0, 0⟩] := by
  have hservers : responsibleGlobal "k" (rep.globalAt .memory) (joinedRing cfg) =
      .ok [⟨"A", "a", 0, 0⟩, ⟨"B", "b", 0, 0⟩] := by
    rw [responsibleGlobal, joinedRing_turn hhash, hglobal]
    decide
  exact twoRings_threads hhash hservers hlocal

omit hhash

variable {D : Type} [Priority D] (codecs : ValueCodecs D) (repCodec : Codec ReplicationFactor)

/-- The thread of `a`, with a value for `"k"` in its store. -/
def firstReplica (store : MemoryStore D) : Replica (pairServer codecs repCodec).toConfig where
  selfTier := .memory
  threadNum := 1
  wt := ⟨"A", "a", 0, 0⟩
  selfJoinCount := 0
  Store := MemoryStore D
  serializers := memorySerializers codecs
  state :=
    { initial _ store 0 with
      globalHashRings := (twoRings (pairServer codecs repCodec).toConfig).globalHashRings
      localHashRings := (twoRings (pairServer codecs repCodec).toConfig).localHashRings
      storedKeyMap := (∅ : ExtTreeMap Key KeyProperty).insert "k" ⟨1, .lww⟩
      keyReplicationMap := (∅ : ExtTreeMap Key KeyReplication).insert "k" oneInMemory }

theorem firstReplica_old :
    ∃ store, OldReplicas (twoRings (pairServer codecs repCodec).toConfig) "k" oneInMemory
      [⟨"A", "a", 0, 0⟩] fun _ => firstReplica codecs repCodec store := by
  obtain ⟨serializer, hentry⟩ : ∃ serializer, memoryEntry codecs .lww = some serializer := ⟨_, rfl⟩
  have hread := memoryEntry_lww_readable hentry (default : MemoryStore D) "k"
    (codecs.lww.serializeAsString ⟨0, "v"⟩)
  rw [codecs.lww.parse_serialize] at hread
  have hvalue : (LWWPairLattice.doMerge (KVStore.value (⊥ : KVStore TimestampValuePair) "k")
    (toLww ⟨0, "v"⟩)).value ≠ "" := by decide
  refine ⟨_, ?_, fun _ _ => ⟨rfl, rfl, getElem?_insert_self⟩, fun _ _ =>
    ⟨_, serializer, getElem?_insert_self, hentry, hread.mpr hvalue⟩⟩
  intro _ hth
  rw [mem_singleton.mp hth]
  rfl

end Two

/-- `a` sends `"k"` to `b` when the memory tier gets a second replica. -/
theorem second_replica_served : ∃ (cfg : Config) (replica : ServerThread → Replica cfg),
      OldReplicas (twoRings cfg) "k" oneInMemory [⟨"A", "a", 0, 0⟩] replica ∧
      ∀ thread ∈ [⟨"A", "a", 0, 0⟩, ⟨"B", "b", 0, 0⟩],
        ServerThread.isIn thread [⟨"A", "a", 0, 0⟩] = false →
        ∃ th ∈ [⟨"A", "a", 0, 0⟩], (replica th).Sends [raise] thread "k" := by
  obtain ⟨codecs, repCodec⟩ := exists_codecs
  obtain ⟨_, hold⟩ := firstReplica_old codecs repCodec
  have hdata : isMetadata raise.key = .ok false := by decide
  have hafter : responsibleThreads (twoRings (pairServer codecs repCodec).toConfig)
      raise.key (oneInMemory.updated raise) kAllTiers =
        .ok [⟨"A", "a", 0, 0⟩, ⟨"B", "b", 0, 0⟩] := twoRings_after rfl rfl rfl
  obtain ⟨hreturns, hserved⟩ := new_replicas_served_iff hdata (twoRings_before rfl) hafter hold
    (mem_singleton_self raise) (by decide)
  have hraises : ¬ oneInMemory.Lowers raise := by decide
  exact ⟨_, _, hold, (hserved (hreturns rfl)).mpr (.inr (.inr ⟨cons_ne_nil _ _, hraises⟩))⟩

/-- **A lowered factor can hide a raised one.**  The update gives the memory tier a
second replica, and lowers the local factor of the disk tier, where the key has no
replica: no thread stops being responsible, and the flag keeps the first replica from
serving the new one. -/
theorem second_replica_not_served :
    ¬ ∀ (cfg : Config) (rings : RingMaps cfg) (keyRep : ReplicationFactor) (rep : KeyReplication)
      (orig threads : List ServerThread) (replica : ServerThread → Replica cfg)
      (updates : List ReplicationFactor),
      isMetadata keyRep.key = .ok false →
      responsibleThreads rings keyRep.key rep kAllTiers = .ok orig →
      responsibleThreads rings keyRep.key (rep.updated keyRep) kAllTiers = .ok threads →
      OldReplicas rings keyRep.key rep orig replica →
      keyRep ∈ updates → (updates.map (·.key)).count keyRep.key = 1 →
      (∀ th ∈ orig, ∃ s', (replica th).state.replicationChangeHandler updates = .ok s') →
      ∀ thread ∈ threads, thread.isIn orig = false →
        ∃ th ∈ orig, (replica th).Sends updates thread keyRep.key := by
  intro h
  obtain ⟨codecs, repCodec⟩ := exists_codecs
  obtain ⟨store, hold⟩ := firstReplica_old codecs repCodec
  have hdata : isMetadata raiseAndLower.key = .ok false := by decide
  have hbefore : responsibleThreads (twoRings (pairServer codecs repCodec).toConfig)
      raiseAndLower.key oneInMemory kAllTiers = .ok [⟨"A", "a", 0, 0⟩] := twoRings_before rfl
  have hafter : responsibleThreads (twoRings (pairServer codecs repCodec).toConfig)
      raiseAndLower.key (oneInMemory.updated raiseAndLower) kAllTiers =
        .ok [⟨"A", "a", 0, 0⟩, ⟨"B", "b", 0, 0⟩] := twoRings_after rfl rfl rfl
  have honce : ([raiseAndLower].map (·.key)).count raiseAndLower.key = 1 := by decide
  have hfirst : (⟨"A", "a", 0, 0⟩ : ServerThread) ∈ [(⟨"A", "a", 0, 0⟩ : ServerThread)] :=
    mem_singleton_self _
  have hconcerns : (firstReplica codecs repCodec store).state.Concerns raiseAndLower _ _ _ :=
    (hold.knows _ hfirst).concerns hdata hbefore hafter
  have hruns := replicationChangeHandler_returns hconcerns (hold.readable _ hfirst)
    (cons_ne_nil _ _)
  obtain ⟨_, _, hsends⟩ := h _ _ _ _ _ _ _ _ hdata hbefore hafter hold
    (mem_singleton_self raiseAndLower) honce (fun _ _ => hruns) ⟨"B", "b", 0, 0⟩
    (mem_cons_of_mem _ (mem_singleton_self _)) (by decide)
  obtain ⟨_, ⟨_, hflag, hserving⟩, hiff⟩ := Replica.sends_iff hconcerns
    (hold.readable _ hfirst) (mem_singleton_self raiseAndLower) honce hruns
  have hlowers : oneInMemory.Lowers raiseAndLower := by decide
  rw [hflag.mpr hlowers] at hserving
  cases hserving
  have hstays : (ServerThread.mk "A" "a" 0 0).isIn [⟨"A", "a", 0, 0⟩, ⟨"B", "b", 0, 0⟩] = true := by
    decide
  rcases (hiff _).mp hsends with ⟨hgone, -⟩ | ⟨_, hnone, -⟩
  · rw [show (firstReplica codecs repCodec store).wt = ⟨"A", "a", 0, 0⟩ from rfl, hstays] at hgone
    cases hgone
  · exact not_mem_nil hnone

end Testbed.Anna
