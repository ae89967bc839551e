import Testbed.Anna.HandlerFaults
import Testbed.Anna.Propagation
import Testbed.Anna.ReplicationChanges

/-! # Lookups that end

`responsible_global` walks around a ring until it has met as many servers as the factor
says, and `responsible_local` does the same with threads.  The walks end as long as the
factors fit the rings (`lookupsEnd_iff`).  Nothing in the server sees to that: factors
come from messages and from the configuration, and servers depart.

`lookups_end` says which messages keep it so: those that bring factors that fit, and
departures that leave enough servers.  Joins only help, unless a first server brings a
tier to life.  `default_factors_hang` is a start with factors that do not fit.
-/
namespace Testbed.Anna

open Std Lib
open ServerState
open KeyReplication List Function ExtTreeMap

variable {key : Key}

theorem issue_hangs {cfg : Config} {rings : RingMaps cfg} {responseAddress : Address}
    {seed : UInt32}
    (h : issueReplicationFactorRequest responseAddress key rings seed = .error .nonTermination) :
    getResponsibleThreadsMetadata rings (getMetadataKey key) = .error .nonTermination := by
  rcases bind_eq_error.mp h with hhangs | ⟨_, -, h⟩
  · exact hhangs
  · dsimp only at h
    split at h <;> cases h

theorem RingMaps.Fits.default {cfg : Config} (rings : RingMaps cfg) (tiers : List Tier) :
    rings.Fits default tiers :=
  fun _ _ => ⟨.inr (Nat.zero_le _), fun _ hpos => absurd hpos (lt_irrefl 0)⟩

/-! ## New factors -/

/-- What `init_replication` sets. -/
def Config.defaultFactors (cfg : Config) : KeyReplication where
  globalReplication tier := some (cfg.defaultReplication tier)
  localReplication _ := some cfg.defaultLocalReplication

/-- The factors of a key after some of the updates of a message. -/
def KeyReplication.updatedBy (rep : KeyReplication) (key : Key)
    (updates : List ReplicationFactor) : KeyReplication :=
  (updates.filter fun update => update.key = key).foldl updated rep

theorem KeyReplication.updatedBy_concat (rep : KeyReplication) (updates : List ReplicationFactor)
    (update : ReplicationFactor) : rep.updatedBy update.key (updates ++ [update]) =
      (rep.updatedBy update.key updates).updated update := by
  rw [updatedBy, updatedBy, filter_append, foldl_append, filter_cons_of_pos (by simp), filter_nil]
  rfl

namespace ServerState
variable {srv : Server} {s s' : ServerState srv}

theorem getD_foldl_insert_self {α : Type} (f : KeyReplication → α → KeyReplication) (l : List α)
    (m : ExtTreeMap Key KeyReplication) :
    (l.foldl (fun m a => m.insert key (f (m.getD key default) a)) m).getD key default =
      l.foldl f (m.getD key default) := by
  induction l generalizing m with
  | nil => rfl
  | cons _ _ ih =>
    rw [foldl_cons, foldl_cons, ih, getD_insert_self]

theorem getD_setFactors (s : ServerState srv) (key : Key) (globals locals : List (Tier × Nat)) :
    ((s.setGlobalFactors key globals).setLocalFactors key locals).keyReplicationMap.getD key
        default =
      locals.foldl setLocal (globals.foldl setGlobal (s.keyReplicationMap.getD key default)) := by
  rw [setLocalFactors, getD_foldl_insert_self setLocal, setGlobalFactors,
    getD_foldl_insert_self setGlobal]

theorem initReplication_factors (s : ServerState srv) (key : Key) {tier : Tier}
    (htier : tier ∈ kAllTiers) :
    (((s.initReplication key).keyReplicationMap.getD key default).globalAt tier =
      srv.defaultReplication tier) ∧
    ((s.initReplication key).keyReplicationMap.getD key default).localAt tier =
      srv.defaultLocalReplication := by
  rw [initReplication, kAllTiers, foldl_cons, foldl_cons, foldl_nil,
    getD_setFactors, getD_setFactors]
  rcases mem_cons.mp htier with rfl | htier
  · exact ⟨rfl, rfl⟩
  · cases mem_singleton.mp htier
    exact ⟨rfl, rfl⟩

theorem initReplication_fits (s : ServerState srv) {rings : RingMaps srv.toConfig}
    (h : rings.Fits srv.defaultFactors kAllTiers) :
    rings.Fits ((s.initReplication key).keyReplicationMap.getD key default) kAllTiers := by
  intro tier htier
  obtain ⟨hglobal, hlocal⟩ := s.initReplication_factors key htier
  rw [hglobal, hlocal]
  exact h tier htier

variable {keyRep : ReplicationFactor}

theorem changeKey_factors {h h' : Handover} (hstep : changeKey (s, h) keyRep = .ok (s', h')) :
    s'.keyReplicationMap = (s.updateFactors keyRep).keyReplicationMap := by
  unfold changeKey at hstep
  dsimp only at hstep
  split at hstep
  · obtain ⟨_, -, hstep⟩ := bind_eq_ok.mp hstep
    split at hstep
    · obtain ⟨_, -, hstep⟩ := bind_eq_ok.mp hstep
      split at hstep
      · obtain ⟨_, -, hstep⟩ := bind_eq_ok.mp hstep
        cases hstep
        rfl
      · cases hstep
        rfl
    · cases hstep
      rfl
  · cases hstep
    rfl

variable {updates : List ReplicationFactor} {acc : ServerState srv × Handover}

theorem changeKeys_factors {acc' : ServerState srv × Handover}
    (h : updates.foldlM changeKey acc = .ok acc') (key : Key) :
    acc'.1.keyReplicationMap.getD key default =
      (acc.1.keyReplicationMap.getD key default).updatedBy key updates := by
  induction updates generalizing acc with
  | nil =>
    cases h
    rfl
  | cons u _ ih =>
    obtain ⟨t, hstep, hrest⟩ := foldlM_cons_eq_ok.mp h
    rw [ih hrest, changeKey_factors hstep, updatedBy, updatedBy]
    by_cases hkey : u.key = key
    · subst hkey
      rw [filter_cons_of_pos (by simp), foldl_cons, updateFactors, getD_setFactors]
      rfl
    · rw [filter_cons_of_neg (by simpa using hkey)]
      obtain ⟨_, _, _, hs', -, hsame⟩ := Asks.updateFactors acc.1 u
      rw [hs', getD_eq_getD_getElem?, getD_eq_getD_getElem?]
      have hfactors := hsame key (Ne.symm hkey)
      rw [hfactors]

/-! ## Factors that fit -/

/-- Every lookup in the tiers that store data ends. -/
def LookupsEnd (s : ServerState srv) : Prop :=
  ∀ key tiers, tiers ⊆ kAllTiers → s.getResponsibleThreads key tiers ≠ .error .nonTermination

/-- The factors of all data keys fit the rings. -/
def FactorsFit (s : ServerState srv) : Prop :=
  ∀ key, isMetadata key = .ok false →
    s.toRingMaps.Fits (s.keyReplicationMap.getD key default) kAllTiers

theorem lookup_hangs {tiers : List Tier}
    (h : s.getResponsibleThreads key tiers = .error .nonTermination) :
    (∃ key', getResponsibleThreadsMetadata s.toRingMaps key' = .error .nonTermination) ∨
      isMetadata key = .ok false ∧ ∃ rep, s.keyReplicationMap[key]? = some rep ∧
        responsibleThreads s.toRingMaps key rep tiers = .error .nonTermination := by
  rcases lookup_error h nofun with hhangs | ⟨hkey, ⟨-, hissue⟩ | hrep⟩
  · exact .inl ⟨key, hhangs⟩
  · exact .inl ⟨_, issue_hangs hissue⟩
  · exact .inr ⟨hkey, hrep⟩

/-- **Lookups end** just if the factors fit. -/
theorem lookupsEnd_iff : s.LookupsEnd ↔ s.FactorsFit ∧ s.toRingMaps.MetadataEnds := by
  constructor
  · intro h
    constructor
    · intro key hkey
      rw [getD_eq_getD_getElem?]
      cases hrep : s.keyReplicationMap[key]? with
      | none => exact .default _ _
      | some =>
        rw [Option.getD_some]
        by_contra hfits
        refine h key kAllTiers (List.Subset.refl _) ?_
        rw [getResponsibleThreads_known kAllTiers hkey hrep,
          responsibleThreads_of_not_fits key hfits]
        rfl
    · by_contra hends
      have hkey : isMetadata "ANNA_METADATA|replication|k" = .ok true := by decide
      have hhangs := metadataThreads_of_not_ends hends "ANNA_METADATA|replication|k"
      refine h "ANNA_METADATA|replication|k" [] (nil_subset _) ?_
      rw [getResponsibleThreads, hkey]
      simp [bind, Except.bind, Anna.getResponsibleThreads, hhangs]
  · rintro ⟨hfits, hends⟩ key tiers htiers h
    rcases lookup_hangs h with ⟨key', hhangs⟩ | ⟨hkey, rep, hrep, hhangs⟩
    · obtain ⟨threads, hthreads⟩ := hends.returns key'
      rw [hthreads] at hhangs
      cases hhangs
    · have hrepfits := hfits key hkey
      rw [getD_eq_getD_getElem?, hrep, Option.getD_some] at hrepfits
      have htierfits : s.toRingMaps.Fits rep tiers := fun tier htier =>
        hrepfits tier (htiers htier)
      obtain ⟨_, hthreads⟩ := (responsibleThreads_returns_iff key).mpr htierfits
      rw [hthreads] at hhangs
      cases hhangs

namespace LookupsEnd

theorem congr (h : s.LookupsEnd) (hrings : s'.toRingMaps = s.toRingMaps)
    (hfactors : s'.keyReplicationMap = s.keyReplicationMap) : s'.LookupsEnd := by
  rw [lookupsEnd_iff] at h ⊢
  unfold FactorsFit at h ⊢
  rw [hrings, hfactors]
  exact h

theorem queues (h : s.LookupsEnd) (hqueues : s.Queues s') : s'.LookupsEnd := by
  obtain ⟨_, _, _, _, rfl⟩ := hqueues
  exact h.congr rfl rfl

theorem touches (h : s.LookupsEnd) (htouches : s.Touches s') : s'.LookupsEnd :=
  h.congr htouches.frame.1 htouches.frame.2.1

theorem learns (h : s.LookupsEnd) (hasks : Asks (· = key) s s')
    (hfits : isMetadata key = .ok false →
      s.toRingMaps.Fits (s'.keyReplicationMap.getD key default) kAllTiers) : s'.LookupsEnd := by
  obtain ⟨_, _, _, hs', -, hsame⟩ := hasks
  have hrings : s'.toRingMaps = s.toRingMaps := by rw [hs']
  have hothers : ∀ key', key' ≠ key →
      s'.keyReplicationMap.getD key' default = s.keyReplicationMap.getD key' default := by
    intro key' hkey'
    rw [hs', getD_eq_getD_getElem?, getD_eq_getD_getElem?]
    exact congrArg (fun rep => rep.getD default) (hsame key' hkey')
  rw [lookupsEnd_iff] at h ⊢
  refine ⟨fun key' hdata => ?_, by rw [hrings]; exact h.2⟩
  rw [hrings]
  by_cases hkey : key' = key
  · subst hkey
    exact hfits hdata
  · rw [hothers key' hkey]
    exact h.1 key' hdata

variable {node : NodeMessage}

theorem withNode (h : s.LookupsEnd) (hsome : (s.globalHashRings node.tier).nodes.nodes ≠ ∅)
    (joinCount : Int) : (s.withNode node joinCount).LookupsEnd := by
  obtain ⟨hfits, hends⟩ := lookupsEnd_iff.mp h
  refine lookupsEnd_iff.mpr ⟨fun key hkey tier htier => ?_, ?_⟩
  · have htierfits := hfits key hkey tier htier
    by_cases hsame : tier = node.tier
    · subst hsame
      simp only [ServerState.withNode, setGlobalRing, update_self]
      exact htierfits.insert hsome _ _ _ _
    · simp only [ServerState.withNode, setGlobalRing, update_of_ne hsame]
      exact htierfits
  · by_cases hsame : Tier.memory = node.tier
    · rw [← hsame] at hsome
      exact .inr (hends.resolve_left hsome)
    · unfold RingMaps.MetadataEnds
      simp only [ServerState.withNode, setGlobalRing, update_of_ne hsame]
      exact hends

end LookupsEnd

/-- Without the node there are still enough servers for every data key, or none. -/
def FitsWithout (s : ServerState srv) (node : NodeMessage) : Prop :=
  node.tier ∈ kAllTiers → ∀ key, isMetadata key = .ok false →
    GlobalFits ((s.globalHashRings node.tier).remove node.publicIp node.privateIp 0)
      ((s.keyReplicationMap.getD key default).globalAt node.tier)

theorem LookupsEnd.withoutNode (h : s.LookupsEnd) (hwithout : s.FitsWithout node) :
    (s.withoutNode node).LookupsEnd := by
  obtain ⟨hfits, hends⟩ := lookupsEnd_iff.mp h
  refine lookupsEnd_iff.mpr ⟨fun key hkey tier htier => ?_, ?_⟩
  · have htierfits := hfits key hkey tier htier
    by_cases hsame : tier = node.tier
    · subst hsame
      simp only [ServerState.withoutNode, setGlobalRing, update_self]
      exact htierfits.remove (hwithout htier key hkey)
    · simp only [ServerState.withoutNode, setGlobalRing, update_of_ne hsame]
      exact htierfits
  · unfold RingMaps.MetadataEnds at hends ⊢
    by_cases hsame : Tier.memory = node.tier
    · simp only [ServerState.withoutNode, setGlobalRing, ← hsame, update_self]
      exact hends.imp_left fun hempty => HashRing.nodes_remove_eq_empty _ hempty
    · simp only [ServerState.withoutNode, setGlobalRing, update_of_ne hsame]
      exact hends

end ServerState

/-! ## Messages -/

/-- A message that can change the rings or the factors.  The addresses are those that a
departing node notifies. -/
inductive ControlMessage where
  | join (serialized : String)
  | depart (serialized : String)
  | selfDepart (serialized : String) (routingIps monitoringIps : List Address)
  | replicationResponse (now : Nat) (response : KeyResponse)
  | replicationChange (updates : List ReplicationFactor)

namespace ServerState
variable {srv : Server} {s s' : ServerState srv}

/-- The handler that the message goes to. -/
def handle (s : ServerState srv) : ControlMessage → Except Fault (ServerState srv)
  | .join serialized => s.nodeJoinHandler serialized
  | .depart serialized => s.nodeDepartHandler serialized
  | .selfDepart serialized routingIps monitoringIps =>
    s.selfDepartHandler serialized routingIps monitoringIps
  | .replicationResponse now response => s.replicationResponseHandler now response
  | .replicationChange updates => s.replicationChangeHandler updates

/-- The factors that are left after the message fit the rings that are left after it.
* A node joins a tier that has servers already, or as its first server is enough for
  all factors.
* Without a departing node there are enough servers for all factors, or none.
* A replication response brings factors that fit, or is for the default factors when
  these fit.
* Each update of a replication change leaves factors that fit. -/
def Fitting (s : ServerState srv) : ControlMessage → Prop
  | .join serialized => ∀ node joinCount, parseJoin serialized = .ok (node, joinCount) →
    (s.globalHashRings node.tier).nodes.nodes ≠ ∅ ∨
      (s.withNode node joinCount).FactorsFit ∧ (s.withNode node joinCount).toRingMaps.MetadataEnds
  | .depart serialized => ∀ node, parseDepart serialized = .ok node → s.FitsWithout node
  | .selfDepart _ _ _ => s.FitsWithout srv.node
  | .replicationResponse _ response => ∀ tuple rest, response.tuples = tuple :: rest →
    isMetadata (getKeyFromMetadata tuple.key) = .ok false →
    (tuple.error = .noError → s.toRingMaps.Fits
      ((s.keyReplicationMap.getD (getKeyFromMetadata tuple.key) default).updated
        (replicationPayload srv tuple.payload)) kAllTiers) ∧
    (tuple.error = .keyDne → s.toRingMaps.Fits srv.defaultFactors kAllTiers)
  | .replicationChange updates => ∀ pre keyRep post, updates = pre ++ keyRep :: post →
    isMetadata keyRep.key = .ok false → s.toRingMaps.Fits
      ((s.keyReplicationMap.getD keyRep.key default).updatedBy keyRep.key (pre ++ [keyRep]))
      kAllTiers

namespace LookupsEnd

theorem self (h : s.LookupsEnd) (htier : srv.selfTier ∈ kAllTiers) (key : Key) :
    s.getResponsibleThreads key [srv.selfTier] ≠ .error .nonTermination :=
  h key _ (cons_subset.mpr ⟨htier, nil_subset _⟩)

variable {serialized : String}

theorem join (htier : srv.selfTier ∈ kAllTiers) (h : s.LookupsEnd)
    (hfitting : s.Fitting (.join serialized)) :
    s.nodeJoinHandler serialized ≠ .error .nonTermination ∧
      ∀ s', s.nodeJoinHandler serialized = .ok s' → s'.LookupsEnd := by
  have hring : ∀ node joinCount, parseJoin serialized = .ok (node, joinCount) →
      (s.withNode node joinCount).LookupsEnd := by
    intro node joinCount hparse
    rcases hfitting node joinCount hparse with hsome | hfits
    · exact h.withNode hsome joinCount
    · exact lookupsEnd_iff.mpr hfits
  constructor
  · intro hhangs
    rcases nodeJoinHandler_error hhangs with
      (he | he) | ⟨node, joinCount, t, key, hparse, hqueues, ht⟩
    · cases he
    · cases he
    · exact ((hring node joinCount hparse).queues hqueues).self htier key ht
  · intro _ hs'
    obtain ⟨node, joinCount, hparse, hqueues⟩ := nodeJoinHandler_queues hs'
    exact (hring node joinCount hparse).queues hqueues

theorem depart (h : s.LookupsEnd) (hfitting : s.Fitting (.depart serialized)) :
    s.nodeDepartHandler serialized ≠ .error .nonTermination ∧
      ∀ s', s.nodeDepartHandler serialized = .ok s' → s'.LookupsEnd := by
  constructor
  · intro hhangs
    rcases bind_eq_error.mp hhangs with hparse | ⟨node, -, hhangs⟩
    · rcases parseDepart_error hparse with he | he <;> cases he
    · dsimp only at hhangs
      split at hhangs <;> cases hhangs
  · intro _ hs'
    obtain ⟨node, _, hparse, rfl⟩ := nodeDepartHandler_eq_ok hs'
    exact (h.withoutNode (hfitting node hparse)).congr rfl rfl

theorem selfDepart {routingIps monitoringIps : List Address} (h : s.LookupsEnd)
    (hfitting : s.Fitting (.selfDepart serialized routingIps monitoringIps)) :
    s.selfDepartHandler serialized routingIps monitoringIps ≠ .error .nonTermination ∧
      ∀ s', s.selfDepartHandler serialized routingIps monitoringIps = .ok s' → s'.LookupsEnd := by
  have hring := h.withoutNode hfitting
  constructor
  · intro hhangs
    rcases selfDepartHandler_error hhangs with he | ⟨t, key, hasks, ht⟩
    · cases he
    · exact hring.congr hasks.frame.1 hasks.frame.2 key kAllTiers (List.Subset.refl _) ht
  · intro _ hs'
    obtain ⟨hrings, hfactors⟩ := selfDepartHandler_frame hs'
    exact hring.congr hrings hfactors

variable {response : KeyResponse}

theorem learnFactors {now : Nat} {tuple : KeyTuple} {rest : List KeyTuple} (h : s.LookupsEnd)
    (hfitting : s.Fitting (.replicationResponse now response))
    (htuples : response.tuples = tuple :: rest)
    (herror : tuple.error = .noError ∨ tuple.error = .keyDne) :
    (s.learnFactors tuple).LookupsEnd := by
  refine h.learns (Asks.learnFactors s tuple) fun hdata => ?_
  obtain ⟨hpayload, hdefault⟩ := hfitting tuple rest htuples hdata
  unfold ServerState.learnFactors
  split
  · rename_i hno
    rw [getD_setFactors]
    exact hpayload hno
  · rename_i hno
    exact s.initReplication_fits (hdefault (herror.resolve_left hno))

theorem replicationResponse {now : Nat} (htier : srv.selfTier ∈ kAllTiers) (h : s.LookupsEnd)
    (hfitting : s.Fitting (.replicationResponse now response)) :
    s.replicationResponseHandler now response ≠ .error .nonTermination ∧
      ∀ s', s.replicationResponseHandler now response = .ok s' → s'.LookupsEnd := by
  constructor
  · intro hhangs
    unfold replicationResponseHandler at hhangs
    split at hhangs
    · cases hhangs
    · rename_i tuple rest htuples
      have hcompletes : tuple.error = .noError ∨ tuple.error = .keyDne →
          (s.learnFactors tuple).completePending now (getKeyFromMetadata tuple.key) ≠
            .error .nonTermination := by
        intro herror hhangs
        have hlearned := h.learnFactors hfitting htuples herror
        rcases bind_eq_error.mp hhangs with hrequests | ⟨s₁, hrequests, hgossip⟩
        · rcases completeRequests_error hrequests with he | hlookup
          · cases he
          · exact hlearned.self htier _ hlookup
        · rcases completeGossip_error hgossip with he | hlookup
          · cases he
          · exact (hlearned.touches (completeRequests_admits hrequests).1).self htier _ hlookup
      split at hhangs
      · rename_i herror
        exact hcompletes (.inl herror) hhangs
      · rename_i herror
        exact hcompletes (.inr herror) hhangs
      · rcases bind_eq_error.mp hhangs with hissue | ⟨_, -, hhangs⟩
        · obtain ⟨_, hthreads⟩ := (lookupsEnd_iff.mp h).2.returns
            (getMetadataKey (getKeyFromMetadata tuple.key))
          rw [issue_hangs hissue] at hthreads
          cases hthreads
        · cases hhangs
      · cases hhangs
  · intro _ hs'
    obtain ⟨_, _, htuples, ⟨herror, hadmits⟩ | hadmits⟩ := replicationResponseHandler_cases hs'
    · exact (h.learnFactors hfitting htuples herror).touches hadmits.1
    · exact h.touches hadmits.1

theorem nextUpdate {done todo : List ReplicationFactor}
    (hfitting : s.Fitting (.replicationChange updates))
    (hsplit : updates = done ++ keyRep :: todo) (hdone : done.foldlM changeKey (s, {}) = .ok acc)
    (hends : acc.1.LookupsEnd) : (acc.1.updateFactors keyRep).LookupsEnd := by
  refine hends.learns (Asks.updateFactors acc.1 keyRep) fun hdata => ?_
  have hrings : acc.1.toRingMaps = s.toRingMaps := by
    obtain ⟨_, _, _, hacc, -⟩ := (changeKeys_spec hdone).1
    rw [hacc]
  have hfits := hfitting done keyRep todo hsplit hdata
  rw [updatedBy_concat, ← changeKeys_factors hdone] at hfits
  rw [hrings, updateFactors, getD_setFactors]
  exact hfits

theorem changeKeys {pre post : List ReplicationFactor} (h : s.LookupsEnd)
    (hfitting : s.Fitting (.replicationChange updates)) (hsplit : updates = pre ++ post)
    (hpre : pre.foldlM changeKey (s, {}) = .ok acc) : acc.1.LookupsEnd := by
  refine foldlM_reachable (fun acc => acc.1.LookupsEnd)
    (fun done keyRep todo acc acc' heq hdone hends hstep => ?_) h hpre
  have hmessage : updates = done ++ keyRep :: (todo ++ post) := by
    rw [hsplit, heq, append_assoc, cons_append]
  have hnext := nextUpdate hfitting hmessage hdone hends
  obtain ⟨_, _, _, hacc', -⟩ := (changeKey_spec hstep).1
  have hrings : acc'.1.toRingMaps = acc.1.toRingMaps := by rw [hacc']
  exact hnext.congr hrings (changeKey_factors hstep)

theorem replicationChange (h : s.LookupsEnd) (hfitting : s.Fitting (.replicationChange updates)) :
    s.replicationChangeHandler updates ≠ .error .nonTermination ∧
      ∀ s', s.replicationChangeHandler updates = .ok s' → s'.LookupsEnd := by
  constructor
  · intro hhangs
    obtain ⟨notices, -, hs⟩ := s.replicationChangeHandler_eq updates
    rw [hs] at hhangs
    have hstart : (s.send notices).LookupsEnd := h.congr rfl rfl
    have hupdates : (s.send notices).Fitting (.replicationChange updates) := hfitting
    rcases bind_eq_error.mp hhangs with hfold | ⟨⟨t, handover⟩, -, hhangs⟩
    · obtain ⟨_, keyRep, _, ⟨t, handover⟩, hsplit, hpre, hkey⟩ := foldlM_eq_error hfold
      have hbefore := hstart.changeKeys hupdates hsplit hpre
      rcases changeKey_error hkey with he | hlookup | ⟨orig, hlookup⟩
      · cases he
      · exact hbefore keyRep.key kAllTiers (List.Subset.refl _) hlookup
      · have hnext : ((t.afterLookup orig).updateFactors keyRep).LookupsEnd :=
          (nextUpdate hupdates hsplit hpre hbefore).congr rfl rfl
        exact hnext keyRep.key kAllTiers (List.Subset.refl _) hlookup
    · rcases bind_eq_error.mp hhangs with hsend | ⟨_, -, hremove⟩
      · cases sendGossip_error hsend
      · obtain ⟨_, _, _, u, -, -, hkey⟩ := foldlM_eq_error hremove
        cases removeChanged_error hkey
  · intro _ hs'
    obtain ⟨notices, _, _, s₂, -, hfold, hsend, hremove⟩ := replicationChangeHandler_eq_ok hs'
    have hstart : (s.send notices).LookupsEnd := h.congr rfl rfl
    have hupdates : (s.send notices).Fitting (.replicationChange updates) := hfitting
    have hchanged := hstart.changeKeys hupdates (append_nil _).symm hfold
    have hsent := hchanged.touches (sendGossip_touches hsend)
    obtain ⟨_, _, _, _, rfl⟩ := Removes.foldlM (fun _ _ _ => removeChanged_removes) hremove
    exact hsent.congr rfl rfl

theorem handle (htier : srv.selfTier ∈ kAllTiers) (h : s.LookupsEnd) {message : ControlMessage}
    (hfitting : s.Fitting message) :
    s.handle message ≠ .error .nonTermination ∧
      ∀ s', s.handle message = .ok s' → s'.LookupsEnd := by
  cases message with
  | join => exact h.join htier hfitting
  | depart => exact h.depart hfitting
  | selfDepart => exact h.selfDepart hfitting
  | replicationResponse => exact h.replicationResponse htier hfitting
  | replicationChange => exact h.replicationChange hfitting

end LookupsEnd

/-! ## Runs -/

theorem keyReplicationMap_startUp (store : srv.Store) (seed : UInt32)
    (membership : List NodeMessage) (threadNumber : Tier → Nat) :
    (startUp store seed membership threadNumber).keyReplicationMap = ∅ := by
  have hfold : ∀ s : ServerState srv, (membership.foldl (fun s node => s.withNode node 0)
      s).keyReplicationMap = s.keyReplicationMap := by
    induction membership with
    | nil => exact fun _ => rfl
    | cons node _ ih => exact fun s => ih (s.withNode node 0)
  exact hfold (initial srv store seed)

theorem factorsFit_startUp (store : srv.Store) (seed : UInt32) (membership : List NodeMessage)
    (threadNumber : Tier → Nat) :
    (startUp store seed membership threadNumber).FactorsFit := by
  intro _ _
  rw [keyReplicationMap_startUp, getD_empty]
  exact .default _ _

/-- **Lookups end** in every state that a run from the start gets to, and every handler
returns from its lookups, as long as the messages bring factors that fit and leave
enough servers. -/
theorem lookups_end (htier : srv.selfTier ∈ kAllTiers) {store : srv.Store} {seed : UInt32}
    {membership : List NodeMessage} {threadNumber : Tier → Nat}
    (hmetadata : (startUp store seed membership threadNumber).toRingMaps.MetadataEnds)
    {messages : List ControlMessage}
    (hfitting : ∀ pre message post t, messages = pre ++ message :: post →
      pre.foldlM handle (startUp store seed membership threadNumber) = .ok t →
      t.Fitting message) :
    (∀ pre post t, messages = pre ++ post →
      pre.foldlM handle (startUp store seed membership threadNumber) = .ok t → t.LookupsEnd) ∧
    messages.foldlM handle (startUp store seed membership threadNumber) ≠
      .error .nonTermination := by
  have hstart :=
    lookupsEnd_iff.mpr ⟨factorsFit_startUp store seed membership threadNumber, hmetadata⟩
  have hrun : ∀ pre post t, messages = pre ++ post →
      pre.foldlM handle (startUp store seed membership threadNumber) = .ok t →
      t.LookupsEnd := by
    intro pre post t hsplit hpre
    refine foldlM_reachable LookupsEnd
      (fun done message todo t t' heq hdone hends hstep => ?_) hstart hpre
    have hmessage : messages = done ++ message :: (todo ++ post) := by
      rw [hsplit, heq, append_assoc, cons_append]
    exact (hends.handle htier (hfitting done message _ t hmessage hdone)).2 t' hstep
  refine ⟨hrun, fun hhangs => ?_⟩
  obtain ⟨pre, message, post, t, hsplit, hpre, hstep⟩ := foldlM_eq_error hhangs
  have hends := hrun pre (message :: post) t hsplit hpre
  exact (hends.handle htier (hfitting pre message post t hsplit hpre)).1 hstep

end ServerState

/-! ## A node on its own -/

/-- Nobody has stored the factors of the key `"k"`. -/
def noFactorsOfK : ControlMessage :=
  .replicationResponse 0 { tuples := [{ key := getMetadataKey "k", error := .keyDne }] }

theorem ServerState.handle_noFactorsOfK {srv : Server} {s : ServerState srv}
    (hrequests : s.pendingRequests = ∅) (hgossip : s.pendingGossip = ∅) :
    [noFactorsOfK].foldlM handle s = .ok (s.initReplication "k") := by
  have hlearn : s.learnFactors { key := getMetadataKey "k", error := .keyDne } =
      s.initReplication "k" := by
    rw [learnFactors, if_neg (by decide), getKeyFromMetadata_getMetadataKey]
  obtain ⟨_, _, _, hs', -⟩ := Asks.learnFactors s { key := getMetadataKey "k", error := .keyDne }
  rw [hlearn] at hs'
  refine foldlM_cons_eq_ok.mpr ⟨s.initReplication "k", ?_, rfl⟩
  have hstep : s.handle noFactorsOfK = (s.initReplication "k").completePending 0 "k" := by
    rfl
  have hrequests' : (s.initReplication "k").pendingRequests = ∅ := by rw [hs']; exact hrequests
  have hgossip' : (s.initReplication "k").pendingGossip = ∅ := by rw [hs']; exact hgossip
  rw [hstep]
  refine bind_eq_ok.mpr ⟨s.initReplication "k", ?_, ?_⟩
  · rw [completeRequests, hrequests', getElem?_empty]
    rfl
  · rw [completeGossip, hgossip', getElem?_empty]
    rfl

section
variable {D : Type} [Priority D] (codecs : ValueCodecs D) (repCodec : Codec ReplicationFactor)

variable (replicas : Nat)

/-- The node on its own, with some default for the number of replicas. -/
def soloWithDefault : Server :=
  { soloServer codecs repCodec with defaultReplication := fun _ => replicas }

/-- Its first thread at the start. -/
def soloStart : ServerState (soloWithDefault codecs repCodec replicas) :=
  startUp (default : MemoryStore D) 0 [] fun _ => 1

theorem soloStart_memoryRing : (soloStart codecs repCodec replicas).globalHashRings .memory =
      (HashRing.insert default "A" "a" 0 0).1 := rfl

theorem soloStart_servers :
    ((soloStart codecs repCodec replicas).globalHashRings .memory).servers.card = 1 := by
  rw [← length_serversFrom "k", serversFrom, soloStart_memoryRing,
    HashRing.turn_insert_default 0 (fun _ => rfl) "k"]
  rfl

theorem soloStart_handle : [noFactorsOfK].foldlM handle (soloStart codecs repCodec replicas) =
      .ok ((soloStart codecs repCodec replicas).initReplication "k") :=
  handle_noFactorsOfK rfl rfl

end

/-- One replica of a key fits, wherever it is. -/
theorem lookups_of_one_replica_end : ∃ (srv : Server) (store : srv.Store) (t : ServerState srv),
    [noFactorsOfK].foldlM handle (startUp store 0 [] fun _ => 1) = .ok t ∧ t.LookupsEnd := by
  obtain ⟨codecs, repCodec⟩ := exists_codecs
  have hrun := soloStart_handle codecs repCodec 1
  refine ⟨_, _, _, hrun, (lookups_end List.mem_cons_self
    (.inr (LocalFits.one _)) ?_).1 [noFactorsOfK] [] _ rfl hrun⟩
  intro pre message post t hsplit _
  obtain ⟨rfl, rfl, rfl⟩ : pre = [] ∧ message = noFactorsOfK ∧ post = [] := by
    cases pre with
    | nil => cases hsplit; exact ⟨rfl, rfl, rfl⟩
    | cons _ pre => cases pre <;> cases hsplit
  rintro _ _ htuples -
  cases htuples
  exact ⟨nofun, fun _ _ _ => ⟨GlobalFits.one _, fun _ _ => LocalFits.one _⟩⟩

/-- **Two replicas by default**, and one node: once it has learnt that nobody stored the
factors of a key, no lookup of that key ends. -/
theorem default_factors_hang : ∃ (srv : Server) (store : srv.Store) (t : ServerState srv),
    srv.selfTier ∈ kAllTiers ∧
    [noFactorsOfK].foldlM handle (startUp store 0 [] fun _ => 1) = .ok t ∧
      t.getResponsibleThreads "k" kAllTiers = .error .nonTermination := by
  obtain ⟨codecs, repCodec⟩ := exists_codecs
  let start := soloStart codecs repCodec 2
  refine ⟨_, _, _, mem_cons_self, soloStart_handle codecs repCodec 2, ?_⟩
  obtain ⟨rep, hrep⟩ : ∃ rep, (start.initReplication "k").keyReplicationMap["k"]? = some rep :=
    ⟨_, getElem?_insert_self⟩
  have hglobal : rep.globalAt .memory = 2 := by
    have hfactors := (start.initReplication_factors "k" mem_cons_self).1
    rwa [getD_eq_getD_getElem?, hrep] at hfactors
  have hnot : ¬ (start.initReplication "k").toRingMaps.Fits rep kAllTiers := by
    intro hfits
    have hservers : GlobalFits (start.globalHashRings .memory) (rep.globalAt .memory) :=
      (hfits .memory mem_cons_self).servers
    rcases hservers with hempty | hcard
    · rw [← serversFrom_eq_nil_iff, ← length_eq_zero_iff, length_serversFrom "k",
        soloStart_servers] at hempty
      cases hempty
    · rw [soloStart_servers] at hcard
      omega
  rw [getResponsibleThreads_known _ (by decide) hrep, responsibleThreads_of_not_fits "k" hnot]
  rfl

end Testbed.Anna
