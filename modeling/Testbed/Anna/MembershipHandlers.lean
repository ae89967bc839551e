import Mathlib.Data.List.Perm.Basic
import Testbed.Anna.MemorySerializers

/-! # Nodes joining and departing

`node_join_handler.cpp`, `node_depart_handler.cpp` and `self_depart_handler.cpp`, with
the text messages that they read.  A thread that hears of a new node puts it on the
global ring of its tier, tells the other nodes, and marks the keys that now belong
elsewhere for redistribution; a departing node is taken off the ring; and a thread whose
own node departs hands its keys over.

For the rings a run of the handlers is a sequence of `HashRing` calls
(`MembershipMessage.ring_of_run`).
-/
namespace Testbed.Anna

open Lib
open ServerState

/-- The id of the first thread of a node, under which global rings know the node. -/
def firstThreadId (privateIp : Address) : String := (ServerThread.mk "" privateIp 0 0).id

/-! ## Messages -/

def tierName : Tier → String
  | .tierUnspecified => "TIER_UNSPECIFIED"
  | .memory => "MEMORY"
  | .disk => "DISK"
  | .routing => "ROUTING"

/-- `Tier_Parse`; on another text the handlers go on with an indeterminate tier. -/
def tierParse (s : String) : Except Fault Tier :=
  if s = "TIER_UNSPECIFIED" then .ok .tierUnspecified
  else if s = "MEMORY" then .ok .memory
  else if s = "DISK" then .ok .disk
  else if s = "ROUTING" then .ok .routing
  else .error .invalidArgument

/-- `std::stoi`: white space, a sign, and digits up to the first other character. -/
def stoi (s : String) : Except Fault Int :=
  let cs := s.toList.dropWhile fun c => c = ' ' || (9 ≤ c.toNat && c.toNat ≤ 13)
  let (sign, cs) : Int × List Char :=
    match cs with
    | '-' :: rest => (-1, rest)
    | '+' :: rest => (1, rest)
    | cs => (1, cs)
  let digits := cs.takeWhile Char.isDigit
  if digits = [] then .error .invalidArgument
  else
    let value := sign * Nat.ofDigitChars 10 digits 0
    if -2147483648 ≤ value ∧ value ≤ 2147483647 then .ok value else .error .outOfRange

/-- `v[i]` of the parts of a message. -/
def part (v : List String) (i : Nat) : Except Fault String :=
  match v[i]? with
  | none => .error .outOfRange
  | some s => .ok s

/-- A node: its tier and its IPs. -/
structure NodeMessage where
  tier : Tier
  publicIp : Address
  privateIp : Address
deriving DecidableEq

/-- What `node_depart_handler` reads off a message. -/
def parseDepart (serialized : String) : Except Fault NodeMessage := do
  let v := split serialized ':'
  let tier ← tierParse (← part v 0)
  return ⟨tier, ← part v 1, ← part v 2⟩

/-- What `node_join_handler` reads off a message: the node and its join count. -/
def parseJoin (serialized : String) : Except Fault (NodeMessage × Int) := do
  let v := split serialized ':'
  let tier ← tierParse (← part v 0)
  let publicIp ← part v 1
  let privateIp ← part v 2
  let joinCount ← stoi (← part v 3)
  return (⟨tier, publicIp, privateIp⟩, joinCount)

/-- The text with which a node announces itself. -/
def joinText (node : NodeMessage) (joinCount : Int) : String :=
  tierName node.tier ++ ":" ++ node.publicIp ++ ":" ++ node.privateIp ++ ":" ++ toString joinCount

/-! ## Handlers -/

/-- The node of a server thread. -/
def Server.node (srv : Server) : NodeMessage := ⟨srv.selfTier, srv.wt.publicIp, srv.wt.privateIp⟩

namespace ServerState
variable {srv : Server} (s : ServerState srv)

/-- Put a ring in its place. -/
def setGlobalRing (tier : Tier) (ring : GlobalHashRing srv.toConfig) : ServerState srv :=
  { s with globalHashRings := Function.update s.globalHashRings tier ring }

/-- The state once a node is on the ring of its tier. -/
def withNode (node : NodeMessage) (joinCount : Int) : ServerState srv :=
  s.setGlobalRing node.tier
    ((s.globalHashRings node.tier).insert node.publicIp node.privateIp joinCount 0).1

/-- The state once a node is off the ring of its tier. -/
def withoutNode (node : NodeMessage) : ServerState srv :=
  s.setGlobalRing node.tier ((s.globalHashRings node.tier).remove node.publicIp node.privateIp 0)

/-- The ring of the threads of a node; the nodes of a tier have the same threads. -/
def localRing (srv : Server) (threadNumber : Nat) : LocalHashRing srv.toConfig :=
  (List.range threadNumber).foldl
    (fun ring tid => (ring.insert srv.wt.publicIp srv.wt.privateIp 0 tid).1) default

/-- The state in which `run` starts: it knows the servers that the seed node sent and its
own node, and how many threads the nodes of each tier have.  The announcement of the
node is left out. -/
def startUp (store : srv.Store) (seed : UInt32) (membership : List NodeMessage)
    (threadNumber : Tier → Nat) : ServerState srv :=
  -- populate addresses
  let s := membership.foldl (fun s node => s.withNode node 0) (initial srv store seed)
  -- add itself to global hash ring
  let s := s.withNode srv.node srv.selfJoinCount
  -- form local hash rings
  { s with localHashRings := fun tier =>
             if tier ∈ kAllTiers then localRing srv (threadNumber tier) else default }

/-- The other worker threads of this node. -/
def otherWorkers (srv : Server) : List ServerThread :=
  (List.range' 1 (srv.threadNum - 1)).map fun tid => ⟨srv.wt.publicIp, srv.wt.privateIp, tid, 0⟩

/-- What thread `0` sends when a node joins: its own name to the new node, the
message to every other node it knows, and the message to the other workers. -/
def joinNotices (serialized : String) (node : NodeMessage) : List (Address × Message) :=
  let new : ServerThread := ⟨node.publicIp, node.privateIp, 0, 0⟩
  let self := joinText ⟨srv.selfTier, srv.wt.publicIp, srv.wt.privateIp⟩ srv.selfJoinCount
  let known := [Tier.tierUnspecified, .memory, .disk, .routing].flatMap fun tier =>
    (s.globalHashRings tier).uniqueServers.toList.map Prod.snd
  let others := known.filter fun st =>
    st.privateIp ≠ srv.wt.privateIp && st.privateIp ≠ node.privateIp
  (new.nodeJoinConnectAddress, .text self) ::
    others.map (fun st => (st.nodeJoinConnectAddress, .text serialized)) ++
    (otherWorkers srv).map fun th => (th.nodeJoinConnectAddress, .text serialized)

variable {serialized : String} {node : NodeMessage} {s s' : ServerState srv}

theorem joinNotices_text {message : Address × Message}
    (h : message ∈ s.joinNotices serialized node) : ∃ text, message.2 = .text text := by
  simp only [joinNotices, List.mem_append, List.mem_cons, List.mem_map] at h
  rcases h with (rfl | ⟨_, -, rfl⟩) | ⟨_, -, rfl⟩ <;> exact ⟨_, rfl⟩

/-- One stored key of `node_join_handler`: a node that rejoins is sent the keys it
is responsible for; when a new node joins, the keys that this thread is no longer
responsible for are sent to those who are, and removed. -/
def joinKey (node : NodeMessage) (joinCount : Int) (s : ServerState srv) (key : Key) :
    Except Fault (ServerState srv) := do
  let lookup ← s.getResponsibleThreads key [srv.selfTier]
  let s := s.afterLookup lookup
  if lookup.succeed then
    if joinCount > 0 then
      let joining := lookup.threads.filter fun thread => thread.privateIp = node.privateIp
      return { s with joinGossipMap := s.joinGossipMap.insertKeyFor joining key }
    else if joinCount = 0 ∧ ¬ srv.wt.isIn lookup.threads then
      return { s with
        joinRemoveSet := s.joinRemoveSet.insert key
        joinGossipMap := s.joinGossipMap.insertKeyFor lookup.threads key }
    else return s
  else return s

def nodeJoinHandler (s : ServerState srv) (serialized : String) :
    Except Fault (ServerState srv) := do
  let (node, joinCount) ← parseJoin serialized
  let (ring, inserted) :=
    (s.globalHashRings node.tier).insert node.publicIp node.privateIp joinCount 0
  let s := s.setGlobalRing node.tier ring
  if inserted then
    -- only thread 0 communicates with other nodes
    let s := if srv.wt.tid = 0 then s.send (s.joinNotices serialized node) else s
    if node.tier = srv.selfTier then s.storedKeyMap.keys.foldlM (joinKey node joinCount) s
    else return s
  else return s

def nodeDepartHandler (s : ServerState srv) (serialized : String) :
    Except Fault (ServerState srv) := do
  let node ← parseDepart serialized
  let s := s.setGlobalRing node.tier
    ((s.globalHashRings node.tier).remove node.publicIp node.privateIp 0)
  if srv.wt.tid = 0 then
    return s.send ((otherWorkers srv).map fun th => (th.nodeDepartConnectAddress, .text serialized))
  else return s

/-- `RoutingThread(ip, tid).notify_connect_address()`. -/
def routingNotifyConnectAddress (ip : Address) (tid : Nat) : Address :=
  "tcp://" ++ ip ++ ":" ++ toString (tid + 6400)

/-- `MonitoringThread(ip).notify_connect_address()`. -/
def monitoringNotifyConnectAddress (ip : Address) : Address :=
  "tcp://" ++ ip ++ ":" ++ toString 6600

/-- What thread `0` sends when its node departs: the name of the node to every server it
knows, to the routing and the monitoring nodes, and the order to depart to the other
workers. -/
def departNotices (s : ServerState srv) (serialized : String)
    (routingIps monitoringIps : List Address) : List (Address × Message) :=
  let msg := tierName srv.selfTier ++ ":" ++ srv.wt.publicIp ++ ":" ++ srv.wt.privateIp
  let known := [Tier.tierUnspecified, .memory, .disk, .routing].flatMap fun tier =>
    (s.globalHashRings tier).uniqueServers.toList.map Prod.snd
  known.map (fun st => (st.nodeDepartConnectAddress, .text msg)) ++
    routingIps.map (fun ip => (routingNotifyConnectAddress ip 0, .text ("depart:" ++ msg))) ++
    monitoringIps.map (fun ip => (monitoringNotifyConnectAddress ip, .text ("depart:" ++ msg))) ++
    (otherWorkers srv).map fun th => (th.selfDepartConnectAddress, .text serialized)

/-- One stored key of `self_depart_handler`: it is sent to its threads on the other
nodes.  Missing factors are only logged. -/
def departKey (acc : ServerState srv × AddressKeysetMap) (key : Key) :
    Except Fault (ServerState srv × AddressKeysetMap) := do
  let (s, addrKeysetMap) := acc
  let lookup ← s.getResponsibleThreads key kAllTiers
  return (s.afterLookup lookup,
    if lookup.succeed then addrKeysetMap.insertKeyFor lookup.threads key else addrKeysetMap)

/-- `self_depart_handler`; the message is the address to report to. -/
def selfDepartHandler (s : ServerState srv) (serialized : String)
    (routingIps monitoringIps : List Address) : Except Fault (ServerState srv) := do
  let s := s.withoutNode srv.node
  let s := if srv.wt.tid = 0 then s.send (s.departNotices serialized routingIps monitoringIps)
    else s
  let (s, addrKeysetMap) ← s.storedKeyMap.keys.foldlM departKey (s, ∅)
  let s ← s.sendGossip addrKeysetMap
  return s.send [(serialized, .text (srv.wt.publicIp ++ "_" ++ srv.wt.privateIp ++ "_" ++
    tierName srv.selfTier))]

/-! ## Effect on the state -/

/-- The states differ in what waits for redistribution, the seed and the messages. -/
def Queues (s s' : ServerState srv) : Prop :=
  ∃ seed joinRemoveSet joinGossipMap sent, s' = { s with seed, joinRemoveSet, joinGossipMap, sent }

theorem Queues.trans {s'' : ServerState srv} (h : s.Queues s') (h' : s'.Queues s'') :
    s.Queues s'' := by
  obtain ⟨_, _, _, _, rfl⟩ := h
  obtain ⟨_, _, _, _, rfl⟩ := h'
  exact ⟨_, _, _, _, rfl⟩

theorem joinKey_queues {joinCount : Int} {key : Key} (h : joinKey node joinCount s key = .ok s') :
    s.Queues s' := by
  obtain ⟨_, -, h⟩ := bind_eq_ok.mp h
  split at h
  · split at h
    · cases h; exact ⟨_, _, _, _, rfl⟩
    · split at h <;> (cases h; exact ⟨_, _, _, _, rfl⟩)
  · cases h; exact ⟨_, _, _, _, rfl⟩

/-- What a join does: it changes the ring and, when the node is new or rejoins in this
tier, looks at the stored keys. -/
theorem nodeJoinHandler_eq_ok (h : s.nodeJoinHandler serialized = .ok s') :
    ∃ node joinCount t, parseJoin serialized = .ok (node, joinCount) ∧
      (s.withNode node joinCount).Queues t ∧ t.joinRemoveSet = s.joinRemoveSet ∧
      (s' = t ∨ node.tier = srv.selfTier ∧
        s.storedKeyMap.keys.foldlM (joinKey node joinCount) t = .ok s') := by
  obtain ⟨⟨node, joinCount⟩, hparse, h⟩ := bind_eq_ok.mp h
  dsimp only at h
  generalize hs₁ : s.setGlobalRing node.tier ((s.globalHashRings node.tier).insert node.publicIp
    node.privateIp joinCount 0).1 = s₁ at h
  have hremove : s₁.joinRemoveSet = s.joinRemoveSet := hs₁ ▸ rfl
  have hstored : s₁.storedKeyMap = s.storedKeyMap := hs₁ ▸ rfl
  have hnotices : ∃ sent, (if srv.wt.tid = 0 then s₁.send (s₁.joinNotices serialized node)
      else s₁) = { s₁ with sent } := by
    split <;> exact ⟨_, rfl⟩
  obtain ⟨sent, hsent⟩ := hnotices
  rw [hsent] at h
  refine ⟨node, joinCount, ?_⟩
  rw [withNode, hs₁]
  split at h
  · refine ⟨{ s₁ with sent }, hparse, ⟨_, _, _, _, rfl⟩, hremove, ?_⟩
    split at h
    · rename_i htier
      rw [← hstored]
      exact Or.inr ⟨htier, h⟩
    · cases h
      exact Or.inl rfl
  · cases h
    exact ⟨_, hparse, ⟨_, _, _, _, rfl⟩, hremove, Or.inl rfl⟩

theorem nodeJoinHandler_queues (h : s.nodeJoinHandler serialized = .ok s') :
    ∃ node joinCount, parseJoin serialized = .ok (node, joinCount) ∧
      (s.withNode node joinCount).Queues s' := by
  obtain ⟨node, joinCount, t, hparse, hqueues, -, rfl | ⟨-, hloop⟩⟩ := nodeJoinHandler_eq_ok h
  · exact ⟨node, joinCount, hparse, hqueues⟩
  · refine ⟨node, joinCount, hparse, ?_⟩
    exact foldlM_invariant (fun u => Queues _ u)
      (fun _ _ u u' hu hstep => hu.trans (joinKey_queues hstep)) hqueues hloop

theorem nodeJoinHandler_new {joinCount : Int} {ring : GlobalHashRing srv.toConfig}
    (hparse : parseJoin serialized = .ok (node, joinCount)) (htid : srv.wt.tid = 0)
    (htier : node.tier = srv.selfTier)
    (hinsert : (s.globalHashRings node.tier).insert node.publicIp node.privateIp joinCount 0 =
      (ring, true)) :
    s.nodeJoinHandler serialized = s.storedKeyMap.keys.foldlM (joinKey node joinCount)
      ((s.setGlobalRing node.tier ring).send
        ((s.setGlobalRing node.tier ring).joinNotices serialized node)) := by
  rw [nodeJoinHandler, hparse]
  simp only [bind, Except.bind, hinsert, if_true, if_pos htier, if_pos htid]
  rfl

theorem joinKey_taken (node : NodeMessage) {key : Key} {lookup : Lookup}
    (hlookup : s.getResponsibleThreads key [srv.selfTier] = .ok lookup)
    (hsucceed : lookup.succeed = true) (hin : srv.wt.isIn lookup.threads = false) :
    joinKey node 0 s key = .ok { s.afterLookup lookup with
      joinRemoveSet := s.joinRemoveSet.insert key
      joinGossipMap := s.joinGossipMap.insertKeyFor lookup.threads key } := by
  refine bind_eq_ok.mpr ⟨lookup, hlookup, ?_⟩
  rw [if_pos hsucceed, if_neg (by decide), if_pos ⟨rfl, by rw [hin]; decide⟩]
  rfl

theorem nodeDepartHandler_eq_ok (h : s.nodeDepartHandler serialized = .ok s') :
    ∃ node sent, parseDepart serialized = .ok node ∧ s' = { s.withoutNode node with sent } := by
  obtain ⟨node, hparse, h⟩ := bind_eq_ok.mp h
  refine ⟨node, s'.sent, hparse, ?_⟩
  split at h <;> (cases h; rfl)

/-- A departure of the node itself: it tells everybody, looks its keys up without itself
and sends them away. -/
theorem selfDepartHandler_eq (s : ServerState srv) (serialized : String)
    (routingIps monitoringIps : List Address) :
    ∃ notices, s.selfDepartHandler serialized routingIps monitoringIps = (do
      let (t, addrKeysetMap) ← s.storedKeyMap.keys.foldlM departKey
        ((s.withoutNode srv.node).send notices, ∅)
      let t ← t.sendGossip addrKeysetMap
      return t.send [(serialized, .text (srv.wt.publicIp ++ "_" ++ srv.wt.privateIp ++ "_" ++
        tierName srv.selfTier))]) := by
  unfold selfDepartHandler
  split
  · exact ⟨_, rfl⟩
  · refine ⟨[], ?_⟩
    rw [send, List.append_nil]
    rfl

end ServerState

/-! ## Histories of messages -/

/-- A message to a thread about a node. -/
inductive MembershipMessage where
  | join (serialized : String)
  | depart (serialized : String)

namespace MembershipMessage

/-- The call on the ring of `tier` that the message leads to, if any. -/
def opOn (tier : Tier) : MembershipMessage → Option RingOp
  | join serialized =>
    match parseJoin serialized with
    | .ok (node, joinCount) =>
      if node.tier = tier then some (.insert node.publicIp node.privateIp joinCount 0) else none
    | .error _ => none
  | depart serialized =>
    match parseDepart serialized with
    | .ok node => if node.tier = tier then some (.remove node.publicIp node.privateIp 0) else none
    | .error _ => none

/-- The handler that the message goes to. -/
def handle {srv : Server} (s : ServerState srv) : MembershipMessage → Except Fault (ServerState srv)
  | join serialized => s.nodeJoinHandler serialized
  | depart serialized => s.nodeDepartHandler serialized

/-- The ring of `tier` after the message. -/
def applyOn {cfg : Config} (tier : Tier) (ring : GlobalHashRing cfg) (e : MembershipMessage) :
    GlobalHashRing cfg :=
  match e.opOn tier with
  | some op => op.apply ring
  | none => ring

variable {srv : Server} {e : MembershipMessage}

theorem handle_ring {s s' : ServerState srv} (tier : Tier) (h : handle s e = .ok s') :
    s'.globalHashRings tier = applyOn tier (s.globalHashRings tier) e := by
  cases e with
  | join =>
    obtain ⟨node, _, hparse, _, _, _, _, rfl⟩ := nodeJoinHandler_queues h
    simp only [applyOn, opOn, hparse, withNode, setGlobalRing]
    by_cases htier : node.tier = tier
    · subst htier
      simp [RingOp.apply]
    · simp [htier, Function.update_of_ne (Ne.symm htier)]
  | depart =>
    obtain ⟨node, _, hparse, rfl⟩ := nodeDepartHandler_eq_ok h
    simp only [applyOn, opOn, hparse, withoutNode, setGlobalRing]
    by_cases htier : node.tier = tier
    · subst htier
      simp [RingOp.apply]
    · simp [htier, Function.update_of_ne (Ne.symm htier)]

variable {events : List MembershipMessage}

theorem ring_of_run {s s' : ServerState srv} (tier : Tier) (h : events.foldlM handle s = .ok s') :
    s'.globalHashRings tier =
      (events.filterMap (opOn tier)).foldl RingOp.apply (s.globalHashRings tier) := by
  rw [List.foldl_filterMap, foldlM_view (fun t => t.globalHashRings tier) (applyOn tier)
    (fun e _ t t' hstep => handle_ring tier hstep) h]
  congr 1
  funext ring e
  unfold applyOn
  cases opOn tier e <;> rfl

/-- The message can be read. -/
def Parses : MembershipMessage → Prop
  | join serialized => ∃ m, parseJoin serialized = .ok m
  | depart serialized => ∃ m, parseDepart serialized = .ok m

theorem handle_returns {s : ServerState srv} (he : e.Parses) (hs : s.storedKeyMap = ∅) :
    ∃ s', handle s e = .ok s' ∧ s'.storedKeyMap = ∅ := by
  cases e with
  | join =>
    obtain ⟨⟨node, joinCount⟩, hparse⟩ := he
    have hloop : ∀ t : ServerState srv, t.storedKeyMap = ∅ →
        t.storedKeyMap.keys.foldlM (joinKey node joinCount) t = .ok t := by
      intro t ht
      rw [ht]
      rfl
    simp only [handle, nodeJoinHandler, hparse, bind, Except.bind]
    split
    · split
      · split <;> exact ⟨_, hloop _ hs, hs⟩
      · split <;> exact ⟨_, rfl, hs⟩
    · exact ⟨_, rfl, hs⟩
  | depart =>
    obtain ⟨_, hparse⟩ := he
    simp only [handle, nodeDepartHandler, hparse, bind, Except.bind]
    split <;> exact ⟨_, rfl, hs⟩

theorem run_returns (hevents : ∀ e ∈ events, e.Parses) {s : ServerState srv}
    (hs : s.storedKeyMap = ∅) : ∃ s', events.foldlM handle s = .ok s' := by
  induction events generalizing s with
  | nil => exact ⟨s, rfl⟩
  | cons e _ ih =>
    obtain ⟨t, ht, hstored⟩ := handle_returns (hevents e List.mem_cons_self) hs
    obtain ⟨s', hs'⟩ := ih (fun e' he' => hevents e' (List.mem_cons_of_mem e he')) hstored
    exact ⟨s', foldlM_cons_eq_ok.mpr ⟨t, ht, hs'⟩⟩

end MembershipMessage

end Testbed.Anna
