import Testbed.Anna.PolicyBounds
import Testbed.Anna.MembershipHandlers

/-! # Removing a node

Three programs take part when a node is removed.  The monitor orders the departure
(`remove_node`) and waits for one acknowledgement from each thread of the node; each thread
runs `self_depart_handler` and acknowledges; `depart_done_handler` of the monitor counts, and
tells the management node after the last one.

The acknowledgement ends with the *name* of the tier, and `depart_done_handler` reads a
number there.  It also looks for the private IP between the first two underscores, and it
counts down from the number of threads of a *memory* node (`Departure.completes_iff`).
-/
namespace Testbed.Anna

open Std Lib
open PolicyState List ExtTreeMap

namespace PolicyState
variable {policy : Policy}

/-! ## `depart_done_handler` -/

variable (s : PolicyState policy)

/-- The last thread of a node has acknowledged. -/
def departed (privateIp : Address) (tierId : Int) : PolicyState policy :=
  let ntype := if tierId = 1 then "memory" else "ebs"
  let s := s.send (managementAddress policy, .text ("remove:" ++ privateIp ++ ":" ++ ntype))
  { s with
    removingMemoryNode := if tierId = 1 then false else s.removingMemoryNode
    removingEbsNode := if tierId = 1 then s.removingEbsNode else false
    departingNodeMap := s.departingNodeMap.erase privateIp }

/-- A thread of a node has acknowledged; an unknown node is only logged. -/
def acknowledge (privateIp : Address) (tierId : Int) : PolicyState policy :=
  match s.departingNodeMap[privateIp]? with
  | none => s
  | some count =>
    if count - 1 = 0 then s.departed privateIp tierId
    else { s with departingNodeMap := s.departingNodeMap.insert privateIp (count - 1) }

/-- What `depart_done_handler` reads off a message. -/
def parseDone (serialized : String) : Except Fault (Address × Int) := do
  let tokens := split serialized '_'
  let _ ← part tokens 0
  let privateIp ← part tokens 1
  return (privateIp, ← stoi (← part tokens 2))

/-- `depart_done_handler`, without the timer that it resets. -/
def departDoneHandler (serialized : String) : Except Fault (PolicyState policy) := do
  let (privateIp, tierId) ← parseDone serialized
  return s.acknowledge privateIp tierId

/-! ## Counting acknowledgements -/

variable {s t : PolicyState policy} {privateIp ip : Address} {tierId : Int} {count : UInt32}

/-- Waiting for more acknowledgements: nothing but the count has changed. -/
structure Waiting (s : PolicyState policy) (ip : Address) (count : UInt32)
    (t : PolicyState policy) : Prop where
  frame : ∃ m, t = { s with departingNodeMap := m }
  entry : t.departingNodeMap[ip]? = some count

theorem Waiting.acknowledge (h : Waiting s ip count t) (hmore : count - 1 ≠ 0) (tierId : Int) :
    Waiting s ip (count - 1) (t.acknowledge ip tierId) := by
  obtain ⟨m, rfl⟩ := h.frame
  have hentry := h.entry
  unfold acknowledge
  rw [hentry]
  dsimp only
  rw [if_neg hmore]
  exact ⟨⟨_, rfl⟩, getElem?_insert_self⟩

theorem Waiting.acknowledge_last (h : Waiting s ip count t) (hlast : count - 1 = 0)
    (tierId : Int) : t.acknowledge ip tierId = t.departed ip tierId := by
  unfold PolicyState.acknowledge
  rw [h.entry]
  dsimp only
  rw [if_pos hlast]

theorem getElem?_acknowledge_of_ne (h : ip ≠ privateIp) :
    (t.acknowledge ip tierId).departingNodeMap[privateIp]? = t.departingNodeMap[privateIp]? := by
  have hne : ¬ compare ip privateIp = .eq := fun heq => h (Std.compare_eq_iff_eq.mp heq)
  unfold acknowledge
  split
  · rfl
  · split
    · unfold departed
      rw [getElem?_erase, if_neg hne]
      rfl
    · rw [ExtTreeMap.getElem?_insert, if_neg hne]

/-- The number of acknowledgements that a count stands for; zero wraps around. -/
def awaited (count : UInt32) : Nat := (count - 1).toNat + 1

theorem sub_one_eq_zero_iff : count - 1 = 0 ↔ awaited count = 1 := by
  unfold awaited
  rw [← UInt32.toNat_inj]
  simp

theorem awaited_sub_one (h : count - 1 ≠ 0) : awaited (count - 1) + 1 = awaited count := by
  unfold awaited
  rw [ne_eq, ← UInt32.toNat_inj] at h
  simp only [UInt32.toNat_sub, UInt32.toNat_one, UInt32.toNat_zero] at *
  omega

theorem Waiting.iterate (h : Waiting s ip count t) (tierId : Int) {k : Nat}
    (hk : k < awaited count) :
    ∃ count', awaited count' + k = awaited count ∧
      Waiting s ip count' (Nat.iterate (fun t => t.acknowledge ip tierId) k t) := by
  induction k generalizing t count with
  | zero => exact ⟨count, rfl, h⟩
  | succ _ ih =>
    have hmore : count - 1 ≠ 0 := by
      rw [ne_eq, sub_one_eq_zero_iff]
      omega
    have hone := awaited_sub_one hmore
    obtain ⟨count', _, hwaiting⟩ := ih (h.acknowledge hmore tierId) (by omega)
    exact ⟨count', by omega, hwaiting⟩

theorem iterate_departed (k : Nat) :
    Nat.iterate (fun t => t.acknowledge ip tierId) k (s.departed ip tierId) =
      s.departed ip tierId := by
  have hnone : (s.departed ip tierId).departingNodeMap[ip]? = none := getElem?_erase_self
  refine Function.iterate_fixed ?_ k
  unfold acknowledge
  rw [hnone]

theorem sent_departed : (s.departed ip tierId).sent = s.sent ++ [(managementAddress policy,
    .text ("remove:" ++ ip ++ ":" ++ if tierId = 1 then "memory" else "ebs"))] := rfl

theorem Waiting.sent_iterate (h : Waiting s ip count t) (tierId : Int) (k : Nat) :
    (Nat.iterate (fun t => t.acknowledge ip tierId) k t).sent =
      s.sent ++ if k < awaited count then [] else [(managementAddress policy,
        .text ("remove:" ++ ip ++ ":" ++ if tierId = 1 then "memory" else "ebs"))] := by
  by_cases hk : k < awaited count
  · obtain ⟨count', -, hwaiting⟩ := h.iterate tierId hk
    obtain ⟨m, hframe⟩ := hwaiting.frame
    rw [if_pos hk, append_nil, hframe]
  · have hpos : 0 < awaited count := Nat.succ_pos _
    obtain ⟨count', _, hwaiting⟩ := h.iterate tierId (Nat.sub_lt hpos Nat.one_pos)
    have hlast : count' - 1 = 0 := by
      rw [sub_one_eq_zero_iff]
      omega
    have hsplit : k = (k - awaited count) + 1 + (awaited count - 1) := by omega
    rw [if_neg hk, hsplit, Function.iterate_add_apply, Function.iterate_succ_apply,
      hwaiting.acknowledge_last hlast, iterate_departed, sent_departed]
    obtain ⟨m, hframe⟩ := hwaiting.frame
    rw [hframe]

variable {serialized : String}

theorem foldlM_replicate (hparse : parseDone serialized = .ok (privateIp, tierId)) (k : Nat) :
    (List.replicate k serialized).foldlM departDoneHandler s =
      .ok (Nat.iterate (fun t => t.acknowledge privateIp tierId) k s) := by
  induction k generalizing s with
  | zero => rfl
  | succ _ ih =>
    have hstep : s.departDoneHandler serialized = .ok (s.acknowledge privateIp tierId) := by
      rw [departDoneHandler, hparse]
      rfl
    exact foldlM_cons_eq_ok.mpr ⟨_, hstep, ih⟩

end PolicyState

/-! ## Departures -/

/-- A node departs: each of its threads has run `self_depart_handler`, and their
acknowledgements arrive in some order. -/
structure Departure (policy : Policy) where
  tier : Tier
  data : tier = .memory ∨ tier = .disk
  publicIp : Address
  privateIp : Address
  srv : Fin (policy.threadNumber tier).toNat → Server
  thread : ∀ i, (srv i).wt = ⟨publicIp, privateIp, i, 0⟩
  selfTier : ∀ i, (srv i).selfTier = tier
  before : ∀ i, ServerState (srv i)
  after : ∀ i, ServerState (srv i)
  routingIps : List Address
  monitoringIps : List Address
  departs : ∀ i, (before i).selfDepartHandler (departDoneConnectAddress policy)
    routingIps monitoringIps = .ok (after i)
  arrival : List (Fin (policy.threadNumber tier).toNat)
  complete : arrival.Perm (List.finRange (policy.threadNumber tier).toNat)

namespace Departure
variable {policy : Policy} (d : Departure policy) (i : Fin (policy.threadNumber d.tier).toNat)

/-- The acknowledgement of a thread is the last message that it sends. -/
def acknowledgement : String :=
  match (d.after i).sent.getLast? with
  | some (_, .text serialized) => serialized
  | _ => ""

/-- The text of all acknowledgements of the node. -/
def doneText : String := d.publicIp ++ "_" ++ d.privateIp ++ "_" ++ tierName d.tier

theorem acknowledgement_eq : (d.after i).sent.getLast? =
        some (departDoneConnectAddress policy, .text d.doneText) ∧
      d.acknowledgement i = d.doneText := by
  have hlast : (d.after i).sent.getLast? =
      some (departDoneConnectAddress policy, .text d.doneText) := by
    have hdeparts := d.departs i
    obtain ⟨_, _⟩ := (d.before i).selfDepartHandler_eq
      (departDoneConnectAddress policy) d.routingIps d.monitoringIps
    obtain ⟨⟨t, _⟩, -, hdeparts⟩ := bind_eq_ok.mp hdeparts
    obtain ⟨_, -, hdeparts⟩ := bind_eq_ok.mp hdeparts
    rw [← Except.ok.inj hdeparts, ServerState.send, getLast?_concat, d.thread i, d.selfTier i]
    rfl
  refine ⟨hlast, ?_⟩
  rw [acknowledgement, hlast]

/-- The acknowledgements in the order in which the monitor handles them. -/
def acknowledgements : List String := d.arrival.map d.acknowledgement

theorem acknowledgements_eq :
    d.acknowledgements = List.replicate (policy.threadNumber d.tier).toNat d.doneText := by
  refine eq_replicate_iff.mpr ⟨?_, fun text hmem => ?_⟩
  · rw [acknowledgements, length_map, d.complete.length_eq, length_finRange]
  · obtain ⟨i, -, rfl⟩ := mem_map.mp hmem
    exact (d.acknowledgement_eq i).2

/-- The node, as the monitor names it. -/
def node : ServerThread := ⟨d.publicIp, d.privateIp, 0, 0⟩

variable (s : PolicyState policy)

/-- The state after `remove_node`, with the flag of the tier. -/
def ordered : PolicyState policy :=
  if d.tier = .memory then s.removeMemoryNode d.node else s.removeEbsNode d.node

/-- The flag of the tier. -/
def removing : Bool :=
  if d.tier = .memory then s.removingMemoryNode else s.removingEbsNode

/-- The order to remove the node, with the name that the management node has for its tier. -/
def removal : Address × Message := (managementAddress policy,
  .text ("remove:" ++ d.privateIp ++ ":" ++ if d.tier = .memory then "memory" else "ebs"))

/-- **The handshake completes**: all acknowledgements are handled, the management node is told
at the last one and not before, the entry of the node is gone and the flag of its tier is
cleared. -/
def Completes : Prop :=
  ∃ init last t s', d.acknowledgements = init ++ [last] ∧
    init.foldlM departDoneHandler (d.ordered s) = .ok t ∧
    t.sent = (d.ordered s).sent ∧
    t.departDoneHandler last = .ok s' ∧ s'.sent = t.sent ++ [d.removal] ∧
    s'.departingNodeMap[d.privateIp]? = none ∧ d.removing s' = false

/-- The acknowledgement names the node and its tier as `depart_done_handler` reads them, and
the monitor waits for as many as there are threads. -/
structure Readable : Prop where
  threads : 0 < policy.threadNumber d.tier
  counted : policy.threadNumber d.tier = policy.threadNumber .memory
  named : ∃ tierId, parseDone d.doneText = .ok (d.privateIp, tierId) ∧
    (tierId = 1 ↔ d.tier = .memory)

theorem waiting :
    Waiting (d.ordered s) d.privateIp (policy.threadNumber .memory) (d.ordered s) := by
  refine ⟨⟨_, rfl⟩, ?_⟩
  unfold ordered
  split <;> exact getElem?_insert_self

variable {s : PolicyState policy}

theorem departDoneHandler_eq_ok {s' : PolicyState policy}
    (h : s.departDoneHandler serialized = .ok s') :
    ∃ ip tierId, parseDone serialized = .ok (ip, tierId) ∧ s' = s.acknowledge ip tierId := by
  obtain ⟨⟨ip, tierId⟩, hparse, h⟩ := bind_eq_ok.mp h
  cases h
  exact ⟨ip, tierId, hparse, rfl⟩

theorem getElem?_iterate_of_ne {ip privateIp : Address} {tierId : Int} (h : ip ≠ privateIp)
    (k : Nat) :
    (Nat.iterate (fun t => t.acknowledge ip tierId) k s).departingNodeMap[privateIp]? =
      s.departingNodeMap[privateIp]? := by
  induction k generalizing s with
  | zero => rfl
  | succ _ ih =>
    rw [Function.iterate_succ_apply, ih]
    exact getElem?_acknowledge_of_ne h

theorem removal_inj {ip : Address} {p q : Prop} [Decidable p] [Decidable q]
    (h : "remove:" ++ ip ++ ":" ++ (if p then "memory" else "ebs") =
      "remove:" ++ ip ++ ":" ++ if q then "memory" else "ebs") : p ↔ q := by
  have hchars := congrArg String.toList h
  rw [String.toList_append (s := "remove:" ++ ip ++ ":"),
    String.toList_append (s := "remove:" ++ ip ++ ":")] at hchars
  have hname := append_cancel_left hchars
  by_cases hp : p
  · by_cases hq : q
    · exact iff_of_true hp hq
    · rw [if_pos hp, if_neg hq] at hname
      exact absurd hname (by decide)
  · by_cases hq : q
    · rw [if_neg hp, if_pos hq] at hname
      exact absurd hname (by decide)
    · exact iff_of_false hp hq

variable {d}

theorem Completes.readable (h : d.Completes s) : d.Readable := by
  have hwaiting := d.waiting s
  have hlt := (policy.threadNumber d.tier).toNat_lt
  obtain ⟨_, _, t, _, hacks, hinit, hquiet, hlast, hsent, herased, -⟩ := h
  rw [d.acknowledgements_eq] at hacks
  obtain ⟨n, hn⟩ : ∃ n, (policy.threadNumber d.tier).toNat = n + 1 := by
    cases hn : (policy.threadNumber d.tier).toNat with
    | zero =>
      rw [hn] at hacks
      simp at hacks
    | succ n => exact ⟨n, rfl⟩
  rw [hn, replicate_succ'] at hacks
  obtain ⟨rfl, hlast'⟩ := append_inj' hacks rfl
  obtain rfl := singleton_inj.mp hlast'
  obtain ⟨ip, tierId, hparse, rfl⟩ := departDoneHandler_eq_ok hlast
  rw [foldlM_replicate hparse] at hinit
  cases hinit
  -- an acknowledgement for another node leaves the entry of this one
  obtain rfl : ip = d.privateIp := by
    by_contra hne
    rw [getElem?_acknowledge_of_ne hne, getElem?_iterate_of_ne hne, hwaiting.entry] at herased
    cases herased
  have hbefore : n < awaited (policy.threadNumber .memory) := by
    by_contra hle
    rw [hwaiting.sent_iterate, if_neg hle] at hquiet
    simp at hquiet
  have hall : (Nat.iterate (fun t => t.acknowledge d.privateIp tierId) (n + 1)
      (d.ordered s)).sent = (d.ordered s).sent ++ [d.removal] := by
    rw [Function.iterate_succ_apply', hsent, hquiet]
  rw [hwaiting.sent_iterate] at hall
  have hmessage := append_cancel_left hall
  have hafter : ¬ n + 1 < awaited (policy.threadNumber .memory) := by
    intro hmore
    rw [if_pos hmore] at hmessage
    cases hmessage
  rw [if_neg hafter] at hmessage
  refine ⟨?_, ?_, tierId, hparse, ?_⟩
  · rw [UInt32.lt_iff_toNat_lt, hn]
    exact Nat.succ_pos n
  · rw [← UInt32.toNat_inj]
    unfold awaited at hbefore hafter
    have hlt' := (policy.threadNumber .memory).toNat_lt
    simp only [UInt32.toNat_sub, UInt32.toNat_one] at hbefore hafter
    omega
  · injection hmessage with hremove _
    injection (congrArg Prod.snd hremove) with htext
    exact removal_inj htext

theorem Readable.completes (h : d.Readable) (s : PolicyState policy) : d.Completes s := by
  have hwaiting := d.waiting s
  have hlt := (policy.threadNumber d.tier).toNat_lt
  obtain ⟨hpos, hcount, tierId, hparse, htier⟩ := h
  obtain ⟨n, hn⟩ : ∃ n, (policy.threadNumber d.tier).toNat = n + 1 :=
    ⟨_, (Nat.succ_pred_eq_of_pos hpos).symm⟩
  have hawaited : awaited (policy.threadNumber .memory) = n + 1 := by
    unfold awaited
    rw [← hcount]
    simp only [UInt32.toNat_sub, UInt32.toNat_one]
    omega
  have hless : n < awaited (policy.threadNumber .memory) := by
    rw [hawaited]
    exact Nat.lt_succ_self n
  obtain ⟨count, _, hbefore⟩ := hwaiting.iterate tierId hless
  have hone : count - 1 = 0 := by
    rw [sub_one_eq_zero_iff]
    omega
  obtain ⟨m, hframe⟩ := hbefore.frame
  refine ⟨List.replicate n d.doneText, d.doneText, _, _, ?_, foldlM_replicate hparse n,
    by rw [hframe], by rw [departDoneHandler, hparse]; rfl, ?_⟩
  · rw [d.acknowledgements_eq, hn, replicate_succ']
  · rw [hbefore.acknowledge_last hone, sent_departed, removal]
    simp only [htier]
    refine ⟨trivial, getElem?_erase_self, ?_⟩
    unfold removing departed
    dsimp only
    by_cases hmemory : d.tier = .memory
    · rw [if_pos hmemory, if_pos (htier.mpr hmemory)]
    · rw [if_neg hmemory, if_neg (mt htier.mp hmemory)]

/-- **The scale-down handshake** completes just if the acknowledgement can be read. -/
theorem completes_iff (d : Departure policy) (s : PolicyState policy) :
    d.Completes s ↔ d.Readable :=
  ⟨Completes.readable, fun h => h.completes s⟩

/-- With addresses that have no underscore in them no handshake completes: the third part of
an acknowledgement is the name of a tier, and not a number. -/
theorem not_completes_of_plain (s : PolicyState policy) (hpublic : '_' ∉ d.publicIp.toList)
    (hprivate : '_' ∉ d.privateIp.toList) : ¬ d.Completes s := by
  intro h
  obtain ⟨-, -, _, hparse, -⟩ := h.readable
  have htext : d.doneText.toList = d.publicIp.toList ++ '_' :: (d.privateIp.toList ++
      '_' :: (tierName d.tier).toList) := by
    simp only [doneText, String.toList_append, append_assoc]
    rfl
  have htokens : split d.doneText '_' = d.publicIp :: d.privateIp ::
      splitLoop '_' [] (tierName d.tier).toList := by
    rw [split, htext, splitLoop_append hpublic, splitLoop_append hprivate, nil_append,
      nil_append, String.ofList_toList, String.ofList_toList]
  unfold parseDone at hparse
  rw [htokens] at hparse
  rcases d.data with htier | htier
  · rw [htier] at hparse
    cases hparse
  · rw [htier] at hparse
    cases hparse

end Departure

theorem ServerState.selfDepartHandler_returns {srv : Server} {s : ServerState srv}
    (h : s.storedKeyMap = ∅) (serialized : String) (routingIps monitoringIps : List Address) :
    ∃ s', s.selfDepartHandler serialized routingIps monitoringIps = .ok s' := by
  obtain ⟨_, hs⟩ := s.selfDepartHandler_eq serialized routingIps monitoringIps
  rw [hs, h]
  exact ⟨_, rfl⟩

/-- The only thread of the only memory node acknowledges with `A_a_MEMORY`, and the monitor
reads a number from `MEMORY`. -/
theorem tier_name_not_a_number :
    ∃ (policy : Policy) (d : Departure policy) (s : PolicyState policy), ¬ d.Completes s := by
  obtain ⟨codecs, repCodec⟩ := exists_codecs
  let policy := twoPolicy codecs repCodec
  obtain ⟨after, hafter⟩ := ServerState.selfDepartHandler_returns
    (s := soloState codecs repCodec ∅) rfl
    (departDoneConnectAddress policy) [] []
  let d : Departure policy :=
    { tier := .memory
      data := .inl rfl
      publicIp := "A"
      privateIp := "a"
      srv := fun _ => soloServer codecs repCodec
      thread := fun i => by
        have hi := Nat.lt_one_iff.mp i.isLt
        rw [hi]
        rfl
      selfTier := fun _ => rfl
      before := fun _ => soloState codecs repCodec ∅
      after := fun _ => after
      routingIps := []
      monitoringIps := []
      departs := fun _ => hafter
      arrival := List.finRange _
      complete := List.Perm.refl _ }
  exact ⟨policy, d, twoState codecs repCodec,
    d.not_completes_of_plain _ (by decide : '_' ∉ "A".toList) (by decide : '_' ∉ "a".toList)⟩

end Testbed.Anna
