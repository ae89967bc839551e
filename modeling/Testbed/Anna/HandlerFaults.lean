import Testbed.Anna.ServerRuns

/-! # How handlers fail

Reading and writing values fails in one way only, at the null serializer of the type
`NONE`; the rest of what can go wrong in a handler is a lookup of responsible threads, a
message that cannot be read, or an element that is not there.  So a handler that never
returns has made a lookup that does not.
-/
namespace Testbed.Anna

open Lib

/-! ## Texts -/

variable {e : Fault}

/-- The text of a message cannot be read. -/
def BadText (e : Fault) : Prop := e = .invalidArgument ∨ e = .outOfRange

theorem tierParse_error {text : String} : FailsOnly BadText (tierParse text) := by
  intro e h
  unfold tierParse at h
  split_ifs at h
  exact .inl (Except.error.inj h).symm

theorem part_error {v : List String} {i : Nat} : FailsOnly BadText (part v i) := by
  intro e h
  unfold part at h
  split at h
  · exact .inr (Except.error.inj h).symm
  · cases h

theorem stoi_error {text : String} : FailsOnly BadText (stoi text) := by
  intro e h
  unfold stoi at h
  dsimp only at h
  -- one case for each way to write the sign
  split at h <;>
  · split at h
    · exact .inl (Except.error.inj h).symm
    · split at h
      · cases h
      · exact .inr (Except.error.inj h).symm

variable {serialized : String} {type : LatticeType} {key : Key} {now : Nat}
  {request : PendingRequest}

theorem parseDepart_error : FailsOnly BadText (parseDepart serialized) :=
  .bind part_error fun _ => .bind tierParse_error fun _ => .bind part_error fun _ =>
    .bind part_error fun _ => .ok _

theorem parseJoin_error : FailsOnly BadText (parseJoin serialized) :=
  .bind part_error fun _ => .bind tierParse_error fun _ => .bind part_error fun _ =>
    .bind part_error fun _ => .bind part_error fun _ => .bind stoi_error fun _ => .ok _

namespace ServerState
variable {srv : Server} {s : ServerState srv}

/-! ## Lookups -/

theorem isMetadata_error : FailsOnly (· = .outOfRange) (isMetadata key) := by
  intro e h
  unfold isMetadata at h
  split at h
  · exact (Except.error.inj h).symm
  · cases h

/-- **Why a lookup fails**: the threads of the metadata, those to ask for unknown factors, or those
under the known factors cannot be found. -/
theorem lookup_error {tiers : List Tier} (h : s.getResponsibleThreads key tiers = .error e)
    (he : e ≠ .outOfRange) :
    getResponsibleThreadsMetadata s.toRingMaps key = .error e ∨ isMetadata key = .ok false ∧
      (s.keyReplicationMap[key]? = none ∧ Anna.issueReplicationFactorRequest
          srv.wt.replicationResponseConnectAddress key s.toRingMaps s.seed = .error e ∨
        ∃ rep, s.keyReplicationMap[key]? = some rep ∧
          responsibleThreads s.toRingMaps key rep tiers = .error e) := by
  rcases bind_eq_error.mp h with hkey | ⟨metadata, hkey, h⟩
  · exact absurd (isMetadata_error hkey) he
  cases metadata with
  | true =>
    rcases bind_eq_error.mp h with hthreads | ⟨threads, -, h⟩
    · exact .inl hthreads
    · cases h
  | false =>
    rw [Anna.getResponsibleThreads, if_neg (by decide)] at h
    split at h
    · rename_i hunknown
      rcases bind_eq_error.mp h with hissue | ⟨asked, -, h⟩
      · exact .inr ⟨hkey, .inl ⟨hunknown, hissue⟩⟩
      · cases h
    · rename_i rep hrep
      rcases bind_eq_error.mp h with hthreads | ⟨threads, -, h⟩
      · exact .inr ⟨hkey, .inr ⟨rep, hrep, hthreads⟩⟩
      · cases h

/-! ## Values -/

/-- The only fault of the serializers is that there is none for the type. -/
theorem at_error : FailsOnly (· = .nullSerializer) (srv.serializers.at type) := by
  intro e h
  unfold SerializerMap.at at h
  split at h
  · exact (Except.error.inj h).symm
  · cases h

theorem processGet_error : FailsOnly (· = .nullSerializer) (s.processGet key type) :=
  .bind at_error fun _ => .ok _

theorem processPut_error {payload : String} :
    FailsOnly (· = .nullSerializer) (s.processPut key type payload) :=
  .bind at_error fun _ => .ok _

theorem removeChanged_error : FailsOnly (· = .nullSerializer) (s.removeChanged key) :=
  .bind (.bind at_error fun _ => .ok _) fun _ => .ok _

theorem gossipKey_error {acc : ServerState srv × KeyRequest} :
    FailsOnly (· = .nullSerializer) (gossipKey acc key) := by
  unfold gossipKey
  split
  · exact .ok _
  · exact .bind processGet_error fun _ => .ok _

theorem sendGossip_error {batch : AddressKeysetMap} :
    FailsOnly (· = .nullSerializer) (s.sendGossip batch) :=
  .bind (.foldlM fun _ _ => .bind (.foldlM fun _ _ => gossipKey_error) fun _ => .ok _)
    fun _ => .ok _

/-! ## Requests and gossip that waited -/

theorem pendingSilent_error :
    FailsOnly (· = .nullSerializer) (s.pendingSilent now key request) := by
  unfold pendingSilent
  split_ifs
  · exact .ok _
  · exact .ok _
  · exact .bind processPut_error fun _ => .ok _
  · exact .ok _

theorem pendingProcess_error : FailsOnly (· = .nullSerializer) (s.pendingProcess key request) := by
  unfold pendingProcess
  split
  · unfold pendingGet
    split
    · exact .ok _
    · split
      · exact .ok _
      · exact .bind processGet_error fun _ => .ok _
  · unfold pendingPut
    split
    · exact .ok _
    · split
      · exact .ok _
      · exact .bind processPut_error fun _ => .ok _

theorem completeRequest_error {responsible : Bool} :
    FailsOnly (· = .nullSerializer) (completeRequest now key responsible s request) := by
  unfold completeRequest
  split_ifs
  · exact .ok _
  · exact pendingSilent_error
  · exact .bind pendingProcess_error fun _ => .ok _
  · exact .ok _

/-- The values cannot be read or written, or a lookup of the key fails. -/
def FaultAt (s : ServerState srv) (key : Key) (e : Fault) : Prop :=
  e = .nullSerializer ∨ s.getResponsibleThreads key [srv.selfTier] = .error e

/-- Requests that waited fail only in a serializer or a lookup. -/
theorem completeRequests_error : FailsOnly (s.FaultAt key) (s.completeRequests now key) := by
  unfold completeRequests
  split
  · exact .ok _
  · refine .bind (fun e => Or.inr) fun lookup => .bind (.mono ?_ fun e => Or.inl) fun _ => .ok _
    unfold completeAll
    split
    · exact .foldlM fun _ _ => completeRequest_error
    · exact .ok _

/-- So does gossip that waited. -/
theorem completeGossip_error : FailsOnly (s.FaultAt key) (s.completeGossip key) := by
  unfold completeGossip
  split
  · exact .ok _
  · refine .bind (fun e => Or.inr) fun lookup => .bind (.mono ?_ fun e => Or.inl) fun _ => .ok _
    unfold completeGossipAll
    split_ifs
    · refine .foldlM fun t gossip => ?_
      unfold completeGossipItem
      split
      · exact .ok _
      · exact processPut_error
    · exact .ok _
    · exact .ok _

/-! ## Keys of a message -/

theorem joinKey_error {node : NodeMessage} {joinCount : Int}
    (h : joinKey node joinCount s key = .error e) :
    s.getResponsibleThreads key [srv.selfTier] = .error e := by
  rcases bind_eq_error.mp h with hlookup | ⟨_, -, h⟩
  · exact hlookup
  · dsimp only at h
    split at h
    · split at h
      · cases h
      · split at h <;> cases h
    · cases h

theorem departKey_error {m : AddressKeysetMap} (h : departKey (s, m) key = .error e) :
    s.getResponsibleThreads key kAllTiers = .error e := by
  rcases bind_eq_error.mp h with hlookup | ⟨_, -, h⟩
  · exact hlookup
  · cases h

variable {handover : Handover}

theorem changeStored_error {lower : Bool} {orig : List ServerThread}
    (h : s.changeStored handover key lower orig = .error e) :
    e = .outOfRange ∨ s.getResponsibleThreads key kAllTiers = .error e := by
  rcases bind_eq_error.mp h with hlookup | ⟨_, -, h⟩
  · exact .inr hlookup
  · left
    split at h
    · rcases bind_eq_error.mp h with hnew | ⟨_, -, h⟩
      · unfold newThreads at hnew
        split at hnew
        · cases hnew
        · split at hnew
          · exact (Except.error.inj hnew).symm
          · cases hnew
      · cases h
    · cases h

/-- A change of factors fails only in a lookup, before or after the change. -/
theorem changeKey_error {keyRep : ReplicationFactor}
    (h : changeKey (s, handover) keyRep = .error e) :
    e = .outOfRange ∨ s.getResponsibleThreads keyRep.key kAllTiers = .error e ∨
      ∃ orig, ((s.afterLookup orig).updateFactors keyRep).getResponsibleThreads keyRep.key
        kAllTiers = .error e := by
  unfold changeKey at h
  dsimp only at h
  split at h
  · rcases bind_eq_error.mp h with hlookup | ⟨orig, -, h⟩
    · exact .inr (.inl hlookup)
    · split at h
      · exact (changeStored_error h).imp_right fun hlookup => .inr ⟨orig, hlookup⟩
      · cases h
  · cases h

/-! ## Handlers -/

/-- **Why `node_join_handler` fails**: the text is bad, or a lookup fails. -/
theorem nodeJoinHandler_error (h : s.nodeJoinHandler serialized = .error e) :
    (e = .invalidArgument ∨ e = .outOfRange) ∨
      ∃ node joinCount t key, parseJoin serialized = .ok (node, joinCount) ∧
        (s.withNode node joinCount).Queues t ∧
        t.getResponsibleThreads key [srv.selfTier] = .error e := by
  rcases bind_eq_error.mp h with hparse | ⟨⟨node, joinCount⟩, hparse, h⟩
  · exact .inl (parseJoin_error hparse)
  · right
    dsimp only at h
    split at h
    · split at h
      · obtain ⟨_, key, _, t, -, hpre, hkey⟩ := foldlM_eq_error h
        refine ⟨node, joinCount, t, key, hparse, ?_, joinKey_error hkey⟩
        refine foldlM_invariant (fun u => ServerState.Queues _ u)
          (fun _ _ u u' hu hstep => hu.trans (joinKey_queues hstep)) ?_ hpre
        split <;> exact ⟨_, _, _, _, rfl⟩
      · cases h
    · cases h

theorem departKeys_asks {keys : List Key} {acc acc' : ServerState srv × AddressKeysetMap}
    (h : keys.foldlM departKey acc = .ok acc') : Asks (fun _ => False) acc.1 acc'.1 := by
  refine foldlM_invariant (fun t => Asks (fun _ => False) acc.1 t.1)
    (fun key _ t t' ht hstep => ?_) (.refl _) h
  obtain ⟨lookup, -, hstep⟩ := bind_eq_ok.mp hstep
  cases hstep
  exact ht.trans (.afterLookup _ lookup)

/-- **Why `self_depart_handler` fails**: a serializer, or a lookup without the node. -/
theorem selfDepartHandler_error {routingIps monitoringIps : List Address}
    (h : s.selfDepartHandler serialized routingIps monitoringIps = .error e) :
    e = .nullSerializer ∨ ∃ t key, Asks (fun _ => False) (s.withoutNode srv.node) t ∧
      t.getResponsibleThreads key kAllTiers = .error e := by
  obtain ⟨notices, hs⟩ := s.selfDepartHandler_eq serialized routingIps monitoringIps
  rw [hs] at h
  rcases bind_eq_error.mp h with hfold | ⟨⟨t, _⟩, -, h⟩
  · obtain ⟨_, key, _, ⟨t, m⟩, -, hpre, hkey⟩ := foldlM_eq_error hfold
    refine .inr ⟨t, key, Asks.trans ?_ (departKeys_asks hpre), departKey_error hkey⟩
    exact ⟨_, _, notices, rfl, fun _ hk => hk, fun _ _ => rfl⟩
  · rcases bind_eq_error.mp h with hsend | ⟨_, -, h⟩
    · exact .inl (sendGossip_error hsend)
    · cases h

theorem selfDepartHandler_frame {s' : ServerState srv} {routingIps monitoringIps : List Address}
    (h : s.selfDepartHandler serialized routingIps monitoringIps = .ok s') :
    s'.toRingMaps = (s.withoutNode srv.node).toRingMaps ∧
      s'.keyReplicationMap = s.keyReplicationMap := by
  obtain ⟨_, hs⟩ := s.selfDepartHandler_eq serialized routingIps monitoringIps
  rw [hs] at h
  obtain ⟨⟨t, _⟩, hfold, h⟩ := bind_eq_ok.mp h
  obtain ⟨_, hsend, h⟩ := bind_eq_ok.mp h
  cases h
  obtain ⟨hrings, hfactors, -⟩ := (sendGossip_touches hsend).frame
  obtain ⟨hrings', hfactors'⟩ := (departKeys_asks hfold).frame
  exact ⟨hrings.trans hrings', hfactors.trans hfactors'⟩

end ServerState

end Testbed.Anna
