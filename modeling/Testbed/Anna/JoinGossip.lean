import Mathlib.Algebra.BigOperators.Group.Finset.Basic
import Mathlib.Algebra.Order.BigOperators.Group.Finset
import Testbed.Anna.MembershipHandlers
import Testbed.Anna.SmallClusters
import Testbed.Lib.Rumors

/-! # The gossip about joining nodes

Thread `0` of a node that hears of a join it did not know tells every node it knows, and
answers the new node with its own name.  These messages are joins again, so every node
that hears one for the first time talks on.  The talk ends (`join_gossip_converges`): a
join with the count that the ring has is not news, the texts that can be under way are
those of the start and the names of the nodes, and each node finds each of them new once.
What a node knows in the end does not depend on the order: it has all servers that it was
told of, each with the largest count.
-/
namespace Testbed.Anna

open Std (ExtTreeMap TransOrd LawfulEqOrd)
open Lib
open ServerState
open HashRing List Std.ExtTreeMap

/-! ## What a ring takes for news -/

namespace HashRing
variable {R : Type} [Ord R] [TransOrd R] [LawfulEqOrd R] [DecidableEq R] {H : Hasher R}

/-- A join of the node with this count is news: the node is not a member, or its count
is smaller. -/
def Accepts (ring : HashRing H) (privateIp : Address) (joinCount : Int) : Prop :=
  firstThreadId privateIp ∉ ring.members ∨ ring.serverJoinCount.getD privateIp 0 < joinCount

variable {ring : HashRing H} {publicIp privateIp p : Address} {joinCount d : Int}

theorem insert_of_accepts (h : ring.Accepts privateIp joinCount) (publicIp : Address) :
    (ring.insert publicIp privateIp joinCount 0).2 = true ∧
      (ring.insert publicIp privateIp joinCount 0).1.serverJoinCount =
        ring.serverJoinCount.insert privateIp joinCount := by
  by_cases hmem : (ServerThread.mk publicIp privateIp 0 0).id ∈ ring.uniqueServers
  · have hlt := h.resolve_left (not_not.mpr hmem)
    rw [insert, if_pos hmem, if_pos hlt]
    exact ⟨rfl, rfl⟩
  · rw [insert, if_neg hmem]
    exact ⟨rfl, rfl⟩

theorem insert_of_not_accepts (h : ¬ ring.Accepts privateIp joinCount) (publicIp : Address) :
    ring.insert publicIp privateIp joinCount 0 = (ring, false) := by
  obtain ⟨hmem, hle⟩ := not_or.mp h
  replace hmem : (ServerThread.mk publicIp privateIp 0 0).id ∈ ring.uniqueServers := not_not.mp hmem
  rw [insert, if_pos hmem, if_neg hle]

theorem firstThreadId_mem_members_insert :
    firstThreadId p ∈ (ring.insert publicIp privateIp joinCount 0).1.members ↔
      p = privateIp ∨ firstThreadId p ∈ ring.members := by
  rw [members_insert, Set.mem_insert_iff]
  exact or_congr_left ⟨fun h => (ServerThread.id_inj.mp h).1, fun h => h ▸ rfl⟩

theorem not_accepts_insert :
    ¬ (ring.insert publicIp privateIp joinCount 0).1.Accepts privateIp joinCount := by
  by_cases h : ring.Accepts privateIp joinCount
  · rintro (hout | hlt)
    · exact hout (firstThreadId_mem_members_insert.mpr (.inl rfl))
    · rw [(insert_of_accepts h publicIp).2, getD_insert_self] at hlt
      exact lt_irrefl _ hlt
  · rwa [insert_of_not_accepts h]

theorem accepts_of_insert (h : (ring.insert publicIp privateIp joinCount 0).1.Accepts p d) :
    ring.Accepts p d := by
  by_cases hnew : ring.Accepts privateIp joinCount
  · rw [Accepts, firstThreadId_mem_members_insert, (insert_of_accepts hnew publicIp).2,
      getD_insert] at h
    simp only [Std.compare_eq_iff_eq] at h
    rcases h with hout | hlt
    · exact .inl (not_or.mp hout).2
    · by_cases hp : privateIp = p
      · rw [if_pos hp] at hlt
        subst hp
        exact hnew.imp_right fun hcount => hcount.trans hlt
      · rw [if_neg hp] at hlt
        exact .inr hlt
  · rwa [insert_of_not_accepts hnew] at h

/-! ### Join counts -/

/-- The ring has a join count for every node, and for nobody else. -/
def Counted (ring : HashRing H) : Prop :=
  ∀ p, p ∈ ring.serverJoinCount ↔ firstThreadId p ∈ ring.members

theorem Counted.getElem?_insert (h : ring.Counted) (publicIp privateIp : Address)
    (joinCount : Int) (p : Address) :
    (ring.insert publicIp privateIp joinCount 0).1.serverJoinCount[p]? =
      if privateIp = p then some ((ring.serverJoinCount[p]?.elim joinCount (max joinCount)))
      else ring.serverJoinCount[p]? := by
  by_cases hnew : ring.Accepts privateIp joinCount
  · rw [(insert_of_accepts hnew publicIp).2, ExtTreeMap.getElem?_insert]
    simp only [Std.compare_eq_iff_eq]
    by_cases hp : privateIp = p
    · rw [if_pos hp, if_pos hp]
      subst hp
      cases hcount : ring.serverJoinCount[privateIp]? with
      | none => rfl
      | some =>
        have hmem := (h privateIp).mp (mem_iff_isSome_getElem?.mpr (by rw [hcount]; rfl))
        have hlt := hnew.resolve_left (not_not.mpr hmem)
        rw [getD_eq_getD_getElem?, hcount, Option.getD_some] at hlt
        exact congrArg some (max_eq_left hlt.le).symm
    · rw [if_neg hp, if_neg hp]
  · rw [insert_of_not_accepts hnew]
    by_cases hp : privateIp = p
    · subst hp
      obtain ⟨hmem, hle⟩ := not_or.mp hnew
      obtain ⟨d, hd⟩ := Option.isSome_iff_exists.mp
        (mem_iff_isSome_getElem?.mp ((h privateIp).mpr (not_not.mp hmem)))
      rw [getD_eq_getD_getElem?, hd, Option.getD_some, not_lt] at hle
      rw [if_pos rfl, hd]
      exact congrArg some (max_eq_right hle).symm
    · rw [if_neg hp]

theorem Counted.insert (h : ring.Counted) (publicIp privateIp : Address) (joinCount : Int) :
    (ring.insert publicIp privateIp joinCount 0).1.Counted := by
  intro p
  rw [firstThreadId_mem_members_insert, ← h p, mem_iff_isSome_getElem?,
    h.getElem?_insert, mem_iff_isSome_getElem?]
  by_cases hp : privateIp = p
  · simp [hp]
  · simp [hp, Ne.symm hp]

/-- A join of a node that a ring is told of. -/
structure Told where
  publicIp : Address
  privateIp : Address
  joinCount : Int

/-- The ring after some joins. -/
def told (ring : HashRing H) (joins : List Told) : HashRing H :=
  joins.foldl (fun ring join => (ring.insert join.publicIp join.privateIp join.joinCount 0).1) ring

theorem members_told (ring : HashRing H) (joins : List Told) : (ring.told joins).members =
      ring.members ∪ {i | ∃ join ∈ joins, i = firstThreadId join.privateIp} := by
  induction joins generalizing ring with
  | nil => simp [told]
  | cons _ _ ih =>
    rw [told, foldl_cons, ← told, ih, members_insert]
    ext i
    simp only [Set.mem_union, Set.mem_insert_iff, Set.mem_ofPred_eq, mem_cons, exists_eq_or_imp]
    rw [or_comm (a := i = _), or_assoc]
    rfl

theorem Counted.told (h : ring.Counted) (joins : List Told) (p : Address) (c : Int) :
    (ring.told joins).serverJoinCount[p]? = some c ↔
      IsGreatest ({d | ring.serverJoinCount[p]? = some d} ∪
        {d | ∃ join ∈ joins, join.privateIp = p ∧ join.joinCount = d}) c := by
  induction joins generalizing ring with
  | nil =>
    have hnone : {d | ∃ join ∈ ([] : List Told), join.privateIp = p ∧ join.joinCount = d} = ∅ := by
      simp
    rw [hnone, Set.union_empty, isGreatest_some]
    rfl
  | cons join joins ih =>
    rw [told, foldl_cons, ← told, ih (h.insert _ _ _), h.getElem?_insert]
    by_cases hp : join.privateIp = p
    · have hcons : {d | ∃ j ∈ join :: joins, j.privateIp = p ∧ j.joinCount = d} =
          Insert.insert join.joinCount {d | ∃ j ∈ joins, j.privateIp = p ∧ j.joinCount = d} := by
        ext d
        simp [hp, eq_comm]
      rw [if_pos hp, isGreatest_elim, hcons]
    · have hcons : {d | ∃ j ∈ join :: joins, j.privateIp = p ∧ j.joinCount = d} =
          {d | ∃ j ∈ joins, j.privateIp = p ∧ j.joinCount = d} := by
        simp [hp]
      rw [if_neg hp, hcons]

end HashRing

/-! ## One node -/

namespace ServerState
variable {srv : Server} {s s' : ServerState srv} {text : String} {node : NodeMessage}
  {joinCount : Int}

/-- The text is a join that is news to the thread. -/
def News (s : ServerState srv) (text : String) : Prop :=
  ∃ node joinCount, parseJoin text = .ok (node, joinCount) ∧
    (s.globalHashRings node.tier).Accepts node.privateIp joinCount

theorem news_iff (hparse : parseJoin text = .ok (node, joinCount)) :
    s.News text ↔ (s.globalHashRings node.tier).Accepts node.privateIp joinCount := by
  constructor
  · rintro ⟨_, _, hparse', h⟩
    cases hparse.symm.trans hparse'
    exact h
  · exact fun h => ⟨node, joinCount, hparse, h⟩

theorem nodeJoinHandler_of_not_news (h : s.nodeJoinHandler text = .ok s') (hold : ¬ s.News text) :
    s' = s := by
  obtain ⟨⟨node, _⟩, hparse, h⟩ := bind_eq_ok.mp h
  have hring := insert_of_not_accepts (mt (news_iff hparse).mpr hold) node.publicIp
  dsimp only at h
  rw [hring] at h
  cases h
  unfold setGlobalRing
  rw [Function.update_eq_self]

theorem nodeJoinHandler_rings (h : s.nodeJoinHandler text = .ok s')
    (hparse : parseJoin text = .ok (node, joinCount)) :
    s'.toRingMaps = (s.withNode node joinCount).toRingMaps := by
  obtain ⟨_, _, hparse', _, _, _, _, rfl⟩ := nodeJoinHandler_queues h
  cases hparse.symm.trans hparse'
  rfl

/-- What a lookup in the loop over the keys sends is a request. -/
def OnlyRequests (messages : List (Address × Message)) : Prop :=
  ∀ message ∈ messages, ∃ request, message.2 = .keyRequest request

theorem joinKey_sent {key : Key} (h : joinKey node joinCount s key = .ok s') :
    ∃ requests, s'.sent = s.sent ++ requests ∧ OnlyRequests requests := by
  obtain ⟨lookup, hlookup, h⟩ := bind_eq_ok.mp h
  have hrequests : OnlyRequests lookup.sent := fun message hmessage =>
    let ⟨request, hrequest, _⟩ := lookup_isGet hlookup message hmessage
    ⟨request, hrequest⟩
  refine ⟨lookup.sent, ?_, hrequests⟩
  split at h
  · split at h
    · cases h
      rfl
    · split at h <;> (cases h; rfl)
  · cases h
    rfl

theorem nodeJoinHandler_sent (htid : srv.wt.tid = 0) (h : s.nodeJoinHandler text = .ok s')
    (hparse : parseJoin text = .ok (node, joinCount)) (hnew : s.News text) :
    ∃ requests, OnlyRequests requests ∧
      s'.sent = s.sent ++ (s.withNode node joinCount).joinNotices text node ++ requests := by
  have hinsert := (insert_of_accepts ((news_iff hparse).mp hnew) node.publicIp).1
  rw [nodeJoinHandler, hparse] at h
  simp only [bind, Except.bind, hinsert, if_true, if_pos htid] at h
  split at h
  · refine foldlM_invariant (fun u : ServerState srv => ∃ requests, OnlyRequests requests ∧
        u.sent = s.sent ++ (s.withNode node joinCount).joinNotices text node ++ requests)
      (fun _ _ u u' hu hstep => ?_) ⟨[], ?_, (append_nil _).symm⟩ h
    · obtain ⟨requests, hrequests, hsent⟩ := hu
      obtain ⟨more, hmore, honly⟩ := joinKey_sent hstep
      refine ⟨requests ++ more, ?_, by rw [hmore, hsent, append_assoc]⟩
      intro message hmessage
      exact (mem_append.mp hmessage).elim (hrequests message) (honly message)
    · exact fun message hmessage => absurd hmessage not_mem_nil
  · cases h
    exact ⟨[], fun message hmessage => absurd hmessage not_mem_nil, (append_nil _).symm⟩

section
variable (h : s.nodeJoinHandler text = .ok s')
include h

theorem not_news_of_join : ¬ s'.News text := by
  obtain ⟨_, _, hparse, -⟩ := nodeJoinHandler_queues h
  rw [news_iff hparse, nodeJoinHandler_rings h hparse]
  simp only [withNode, setGlobalRing, Function.update_self]
  exact not_accepts_insert

theorem accepts_of_join {tier : Tier} {p : Address} {c : Int}
    (haccepts : (s'.globalHashRings tier).Accepts p c) :
    (s.globalHashRings tier).Accepts p c := by
  obtain ⟨node, _, hparse, -⟩ := nodeJoinHandler_queues h
  rw [nodeJoinHandler_rings h hparse] at haccepts
  by_cases htier : node.tier = tier
  · subst htier
    simp only [withNode, setGlobalRing, Function.update_self] at haccepts
    exact accepts_of_insert haccepts
  · simpa only [withNode, setGlobalRing, Function.update_of_ne (Ne.symm htier)] using haccepts

theorem news_of_join {text' : String} (hnew : s'.News text') : s.News text' := by
  obtain ⟨node, joinCount, hparse, haccepts⟩ := hnew
  exact ⟨node, joinCount, hparse, accepts_of_join h haccepts⟩

end

end ServerState

/-! ## The network -/

/-- The texts among some messages, with their addressees. -/
def textsOf (messages : List (Address × Message)) : List (Address × String) :=
  messages.filterMap fun message =>
    match message.2 with
    | .text text => some (message.1, text)
    | _ => none

theorem textsOf_append (l r : List (Address × Message)) :
    textsOf (l ++ r) = textsOf l ++ textsOf r := filterMap_append

theorem textsOf_requests {requests : List (Address × Message)}
    (h : OnlyRequests requests) : textsOf requests = [] := by
  refine filterMap_eq_nil_iff.mpr fun message hmessage => ?_
  obtain ⟨_, hrequest⟩ := h message hmessage
  rw [hrequest]

section Network
variable {ι : Type} {srv : ι → Server}

/-- The first threads of the nodes, and the texts that are under way. -/
structure Network (srv : ι → Server) where
  states : ∀ i, ServerState (srv i)
  inFlight : Multiset (Address × String)

namespace Network
variable {net net' net₁ net₂ : Network srv} {i j : ι} {text : String}

/-- A text that is under way to the first thread of the node `i` is taken from the network
and handled there; what this sends is under way then. -/
structure Delivers (net : Network srv) (i : ι) (text : String) (net' : Network srv) : Prop where
  pending : ((srv i).wt.nodeJoinConnectAddress, text) ∈ net.inFlight
  handled : (net.states i).nodeJoinHandler text = .ok (net'.states i)
  others : ∀ j, j ≠ i → net'.states j = net.states j
  inFlight : net'.inFlight = net.inFlight.erase ((srv i).wt.nodeJoinConnectAddress, text) +
    textsOf ((net'.states i).sent.drop (net.states i).sent.length)

/-- A run: which nodes got which texts, in this order. -/
inductive Runs : Network srv → List (ι × String) → Network srv → Prop
  | refl (net : Network srv) : Runs net [] net
  | step {net net₁ net' : Network srv} {i : ι} {text : String} {log : List (ι × String)}
      (hfirst : net.Delivers i text net₁) (hrest : Runs net₁ log net') :
      Runs net ((i, text) :: log) net'

/-- The name under which a node answers. -/
def selfText (srv : Server) : String :=
  joinText ⟨srv.selfTier, srv.wt.publicIp, srv.wt.privateIp⟩ srv.selfJoinCount

variable {message : Address × String}

theorem joinNotices_texts {srv : Server} {s : ServerState srv} {text : String}
    {node : NodeMessage} (h : message ∈ textsOf (s.joinNotices text node)) :
    message.2 = selfText srv ∨ message.2 = text := by
  obtain ⟨m, hm, htext⟩ := mem_filterMap.mp h
  simp only [joinNotices, mem_append, mem_cons, mem_map] at hm
  rcases hm with (rfl | ⟨_, -, rfl⟩) | ⟨_, -, rfl⟩
  · cases htext
    exact .inl rfl
  · cases htext
    exact .inr rfl
  · cases htext
    exact .inr rfl

theorem Delivers.inFlight_of_not_news (h : net.Delivers i text net')
    (hold : ¬ (net.states i).News text) :
    net'.states i = net.states i ∧ net'.inFlight.card < net.inFlight.card := by
  have hsame := nodeJoinHandler_of_not_news h.handled hold
  refine ⟨hsame, ?_⟩
  rw [h.inFlight, hsame, drop_length]
  change Multiset.card (_ + 0) < _
  rw [add_zero]
  exact Multiset.card_erase_lt_of_mem h.pending

theorem Delivers.texts (htids : ∀ i, (srv i).wt.tid = 0) (h : net.Delivers i text net')
    (hmessage : message ∈ net'.inFlight) :
    message ∈ net.inFlight ∨ message.2 = selfText (srv i) ∨ message.2 = text := by
  rw [h.inFlight, Multiset.mem_add] at hmessage
  rcases hmessage with hold | hsent
  · exact .inl (Multiset.mem_of_mem_erase hold)
  · refine Or.inr ?_
    by_cases hnew : (net.states i).News text
    · obtain ⟨node, joinCount, hparse, haccepts⟩ := hnew
      obtain ⟨_, hrequests, hlist⟩ := nodeJoinHandler_sent (htids i) h.handled
        hparse ⟨node, joinCount, hparse, haccepts⟩
      rw [hlist, append_assoc, drop_left, textsOf_append, textsOf_requests hrequests,
        append_nil] at hsent
      exact joinNotices_texts hsent
    · rw [nodeJoinHandler_of_not_news h.handled hnew, drop_length] at hsent
      cases hsent

/-! ### The talk ends -/

/-- The texts under way are known beforehand. -/
def Within (texts : Finset String) (net : Network srv) : Prop :=
  ∀ message ∈ net.inFlight, message.2 ∈ texts

variable {texts : Finset String}

theorem Delivers.within (htids : ∀ i, (srv i).wt.tid = 0) (hself : ∀ i, selfText (srv i) ∈ texts)
    (hwithin : net.Within texts) (h : net.Delivers i text net') : net'.Within texts := by
  intro message hmessage
  rcases h.texts htids hmessage with hold | hname | htext
  · exact hwithin message hold
  · exact hname ▸ hself i
  · exact htext ▸ hwithin _ h.pending

/-- How much news there is left for all nodes together. -/
noncomputable def newsLeft [Fintype ι] (texts : Finset String) (net : Network srv) : Nat :=
  ∑ i, news News texts (net.states i)

theorem Delivers.progress [Fintype ι] (hwithin : net.Within texts) (h : net.Delivers i text net') :
    newsLeft texts net' < newsLeft texts net ∨
      newsLeft texts net' = newsLeft texts net ∧ net'.inFlight.card < net.inFlight.card := by
  by_cases hnew : (net.states i).News text
  · refine .inl (Finset.sum_lt_sum (fun j _ => ?_) ⟨i, Finset.mem_univ i, ?_⟩)
    · by_cases hj : j = i
      · subst hj
        exact news_le fun _ => news_of_join h.handled
      · rw [h.others j hj]
    · exact news_lt (fun _ => news_of_join h.handled) (hwithin _ h.pending) hnew
        (not_news_of_join h.handled)
  · obtain ⟨hsame, hqueue⟩ := h.inFlight_of_not_news hnew
    refine .inr ⟨Finset.sum_congr rfl fun j _ => ?_, hqueue⟩
    by_cases hj : j = i
    · subst hj
      rw [hsame]
    · rw [h.others j hj]

/-- **No run goes on forever.** -/
theorem talk_ends [Fintype ι] (htids : ∀ i, (srv i).wt.tid = 0) {run : Nat → Network srv}
    (hrun : ∀ n, ∃ i text, (run n).Delivers i text (run (n + 1))) : False := by
  classical
  let texts : Finset String :=
    ((run 0).inFlight.map Prod.snd).toFinset ∪ Finset.univ.image fun i => selfText (srv i)
  have hself : ∀ i, selfText (srv i) ∈ texts := fun i =>
    Finset.mem_union_right _ (Finset.mem_image_of_mem _ (Finset.mem_univ i))
  have hwithin : ∀ n, (run n).Within texts := by
    intro n
    induction n with
    | zero =>
      intro _ hmessage
      exact Finset.mem_union_left _
        (Multiset.mem_toFinset.mpr (Multiset.mem_map_of_mem Prod.snd hmessage))
    | succ n ih =>
      obtain ⟨i, text, hstep⟩ := hrun n
      exact hstep.within htids hself ih
  refine no_infinite_run (newsLeft texts) (fun net => net.inFlight.card) run fun n => ?_
  obtain ⟨i, _, hstep⟩ := hrun n
  exact hstep.progress (hwithin n)

/-! ### What a node knows in the end -/

variable {log : List (ι × String)}

theorem Runs.accepts (h : Runs net log net') {tier : Tier} {p : Address} {c : Int}
    (haccepts : ((net'.states i).globalHashRings tier).Accepts p c) :
    ((net.states i).globalHashRings tier).Accepts p c := by
  induction h with
  | refl => exact haccepts
  | @step net net₁ net' j text log hfirst hrest ih =>
    have hafter := ih haccepts
    by_cases hi : i = j
    · subst hi
      exact accepts_of_join hfirst.handled hafter
    · rwa [hfirst.others i hi] at hafter

/-- The texts announce the same node of a tier with the same count. -/
def SameJoin (text text' : String) : Prop :=
  ∃ tier publicIp publicIp' privateIp joinCount,
    parseJoin text = .ok (⟨tier, publicIp, privateIp⟩, joinCount) ∧
    parseJoin text' = .ok (⟨tier, publicIp', privateIp⟩, joinCount)

theorem sent_of_same_join {text' : String} (hfirst : net.Delivers i text net₁)
    (hruns : Runs net₁ log net₂) (hsecond : net₂.Delivers i text' net')
    (hsame : SameJoin text text') : net'.states i = net₂.states i := by
  obtain ⟨_, _, _, _, _, hparse, hparse'⟩ := hsame
  refine nodeJoinHandler_of_not_news hsecond.handled fun hnews => ?_
  have haccepts := hruns.accepts ((news_iff hparse').mp hnews)
  exact not_news_of_join hfirst.handled ((news_iff hparse).mpr haccepts)

/-- The join of a node of the tier that a text announces. -/
def toldBy (tier : Tier) (text : String) : Option Told :=
  match parseJoin text with
  | .ok (node, joinCount) =>
    if node.tier = tier then some ⟨node.publicIp, node.privateIp, joinCount⟩ else none
  | .error _ => none

/-- The joins of nodes of the tier that the node `i` got in a run. -/
def received [DecidableEq ι] (log : List (ι × String)) (i : ι) (tier : Tier) : List Told :=
  (log.filter fun entry => entry.1 = i).filterMap fun entry => toldBy tier entry.2

theorem ring_of_join {srv : Server} {s s' : ServerState srv} (h : s.nodeJoinHandler text = .ok s')
    (tier : Tier) :
    s'.globalHashRings tier = (s.globalHashRings tier).told (toldBy tier text).toList := by
  obtain ⟨node, _, hparse, -⟩ := nodeJoinHandler_queues h
  rw [nodeJoinHandler_rings h hparse]
  by_cases htier : node.tier = tier
  · subst htier
    simp only [toldBy, hparse, if_true, withNode, setGlobalRing, Function.update_self]
    rfl
  · simp only [toldBy, hparse, if_neg htier, withNode, setGlobalRing,
      Function.update_of_ne (Ne.symm htier)]
    rfl

theorem Runs.ring [DecidableEq ι] (h : Runs net log net') (i : ι) (tier : Tier) :
    (net'.states i).globalHashRings tier =
      ((net.states i).globalHashRings tier).told (received log i tier) := by
  induction h with
  | refl => rfl
  | @step net net₁ net' j text log hfirst hrest ih =>
    rw [ih]
    by_cases hi : i = j
    · subst hi
      have hreceived : received ((i, text) :: log) i tier =
          (toldBy tier text).toList ++ received log i tier := by
        cases htold : toldBy tier text <;> simp [htold, received]
      rw [hreceived, ring_of_join hfirst.handled, told, told, told, foldl_append]
    · have hreceived : received ((j, text) :: log) i tier = received log i tier := by
        rw [received, filter_cons_of_neg (by simpa using Ne.symm hi)]
        rfl
      rw [hreceived, hfirst.others i hi]

end Network

open Network in
/-- **The gossip about joins converges and stops.**  Any nodes, with any rings and any
joins under way, without departures: no run of deliveries goes on forever, so only
finitely many messages are sent; a node that hears of a node and a count again does not
pass it on again; and after any run a node's members are those it had and those it was
told of, each with the largest count that it had or was told. -/
theorem join_gossip_converges [Fintype ι] [DecidableEq ι] (htids : ∀ i, (srv i).wt.tid = 0)
    (net : Network srv) (hcounted : ∀ i tier, ((net.states i).globalHashRings tier).Counted) :
    (¬ ∃ run : Nat → Network srv, run 0 = net ∧
      ∀ n, ∃ i text, (run n).Delivers i text (run (n + 1))) ∧
    (∀ before between (net₁ net₂ net₃ net₄ : Network srv) i text text',
      Runs net before net₁ → net₁.Delivers i text net₂ → Runs net₂ between net₃ →
      net₃.Delivers i text' net₄ → SameJoin text text' →
      (net₄.states i).sent = (net₃.states i).sent) ∧
    (∀ log net', Runs net log net' → ∀ i tier, ((net'.states i).globalHashRings tier).members =
        ((net.states i).globalHashRings tier).members ∪
          {server | ∃ join ∈ received log i tier, server = firstThreadId join.privateIp} ∧
      ∀ p c, ((net'.states i).globalHashRings tier).serverJoinCount[p]? = some c ↔
        IsGreatest ({d | ((net.states i).globalHashRings tier).serverJoinCount[p]? = some d} ∪
          {d | ∃ join ∈ received log i tier, join.privateIp = p ∧ join.joinCount = d}) c) := by
  refine ⟨fun ⟨run, _, hrun⟩ => talk_ends htids hrun, ?_, ?_⟩
  · intro _ _ _ _ _ _ i _ _ _ hfirst hruns hsecond hsame
    rw [sent_of_same_join hfirst hruns hsecond hsame]
  · intro _ _ hruns i tier
    rw [hruns.ring i tier]
    exact ⟨members_told _ _, (hcounted i tier).told _⟩

end Network

theorem HashRing.counted_default {R : Type} [Ord R] [TransOrd R] [LawfulEqOrd R] {H : Hasher R} :
    (default : HashRing H).Counted := by
  intro p
  rw [members_default]
  exact iff_of_false not_mem_empty (Set.notMem_empty _)

/-- The join of `a` is under way to `b`: whatever is delivered, the talk ends. -/
theorem join_gossip_converges_pair : ∃ (srv : Unit → Server) (net : Network srv),
      net.inFlight = {((srv ()).wt.nodeJoinConnectAddress, "MEMORY:A:a:0")} ∧
      ¬ ∃ run : Nat → Network srv, run 0 = net ∧
        ∀ n, ∃ i text, (run n).Delivers i text (run (n + 1)) := by
  obtain ⟨codecs, repCodec⟩ := exists_codecs
  let srv : Unit → Server := fun _ => pairServer codecs repCodec
  let net : Network srv := ⟨fun _ => pairState codecs repCodec,
    {((srv ()).wt.nodeJoinConnectAddress, "MEMORY:A:a:0")}⟩
  have hcounted : ∀ i tier, ((net.states i).globalHashRings tier).Counted := by
    intro i tier
    have hview := pairState_view codecs repCodec
    cases tier with
    | memory =>
      exact counted_default.insert "B" "b" 0
    | disk =>
      exact counted_default.insert "D" "d" 0
    | tierUnspecified => exact counted_default
    | routing => exact counted_default
  exact ⟨srv, net, rfl, (join_gossip_converges (fun _ => rfl) net hcounted).1⟩

end Testbed.Anna
