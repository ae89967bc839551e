import Testbed.Anna.MembershipHandlers

/-! # Servers that depart

A node announces itself once, but nodes pass its join on, so that a thread can
process several copies of it, before and after the node's departure.
`HashRing::remove` forgets the join count together with the server, and nothing
tells a late copy of the join from a new one: a departed server stays out of the
ring exactly if no copy of its join is processed after the departure
(`departed_server_absent_iff`); `departed_server_rejoins` is an instance of the
failure.
-/
namespace Testbed.Anna

open Lib MembershipMessage List

section
variable (tier : Tier) (privateIp : Address) (joinCount : Int) (e : MembershipMessage)

/-- A copy of the node's join. -/
def IsJoinOf : Prop :=
  ∃ serialized publicIp, e = .join serialized ∧
    parseJoin serialized = .ok (⟨tier, publicIp, privateIp⟩, joinCount)

/-- A join of another node, or of this one in another tier. -/
def IsOtherJoin : Prop :=
  ∃ serialized node count, e = .join serialized ∧ parseJoin serialized = .ok (node, count) ∧
    ¬ (node.tier = tier ∧ node.privateIp = privateIp)

/-- The node's departure. -/
def IsDepartOf : Prop :=
  ∃ serialized publicIp, e = .depart serialized ∧
    parseDepart serialized = .ok ⟨tier, publicIp, privateIp⟩

/-- What a thread hears about a node that joins once and departs: its departure,
some copies of its join, and joins of others, in any order. -/
structure DepartureHistory where
  before : List MembershipMessage
  depart : MembershipMessage
  after : List MembershipMessage
  isDepart : IsDepartOf tier privateIp depart
  isJoin : ∀ e ∈ before ++ after, IsJoinOf tier privateIp joinCount e ∨ IsOtherJoin tier privateIp e
  copy : ∃ e ∈ before ++ after, IsJoinOf tier privateIp joinCount e

end

section
variable {tier : Tier} {privateIp : Address} {joinCount : Int} {e : MembershipMessage}

theorem IsDepartOf.opOn (h : IsDepartOf tier privateIp e) :
    ∃ publicIp, e.opOn tier = some (.remove publicIp privateIp 0) := by
  obtain ⟨_, publicIp, rfl, hparse⟩ := h
  exact ⟨publicIp, by simp [MembershipMessage.opOn, hparse]⟩

theorem IsJoinOf.opOn (h : IsJoinOf tier privateIp joinCount e) :
    ∃ publicIp, e.opOn tier = some (.insert publicIp privateIp joinCount 0) := by
  obtain ⟨_, publicIp, rfl, hparse⟩ := h
  exact ⟨publicIp, by simp [MembershipMessage.opOn, hparse]⟩

theorem IsOtherJoin.opOn (h : IsOtherJoin tier privateIp e) {op : RingOp}
    (hop : e.opOn tier = some op) :
    ∃ publicIp privateIp' count, op = .insert publicIp privateIp' count 0 ∧
      privateIp' ≠ privateIp := by
  obtain ⟨_, _, _, rfl, hparse, hother⟩ := h
  simp only [MembershipMessage.opOn, hparse, Option.ite_none_right_eq_some] at hop
  obtain ⟨htier, hop⟩ := hop
  exact ⟨_, _, _, (Option.some.inj hop).symm, fun hip => hother ⟨htier, hip⟩⟩

theorem join_effect (h : IsJoinOf tier privateIp joinCount e ∨ IsOtherJoin tier privateIp e)
    {op : RingOp} (hop : e.opOn tier = some op) :
    (∀ i, ¬ op.Removes i) ∧
      (op.Inserts (firstThreadId privateIp) ↔ IsJoinOf tier privateIp joinCount e) := by
  rcases h with h | h
  · obtain ⟨publicIp, hins⟩ := h.opOn
    rw [hins] at hop
    cases hop
    exact ⟨fun i => id, fun _ => h, fun _ => rfl⟩
  · obtain ⟨_, _, _, rfl, hne⟩ := h.opOn hop
    refine ⟨fun i => id, fun hid => absurd ((ServerThread.id_inj.mp hid).1) hne, fun hjoin => ?_⟩
    obtain ⟨_, hins⟩ := hjoin.opOn
    rw [hins] at hop
    cases hop
    exact absurd rfl hne

end

namespace DepartureHistory
variable {tier : Tier} {privateIp : Address} {joinCount : Int}
  (h : DepartureHistory tier privateIp joinCount)

/-- The messages in the order in which the thread processes them. -/
def messages : List MembershipMessage := h.before ++ h.depart :: h.after

/-- No copy of the join is processed after the departure. -/
def JoinsFirst : Prop := ∀ e ∈ h.after, ¬ IsJoinOf tier privateIp joinCount e

/-- Some message of the history inserts the server `i`. -/
def Announces (i : String) : Prop :=
  ∃ e ∈ h.messages, ∃ op, e.opOn tier = some op ∧ op.Inserts i

variable {h}

theorem parses {e : MembershipMessage} (he : e ∈ h.messages) : e.Parses := by
  have hjoin : ∀ e ∈ h.before ++ h.after, e.Parses := by
    intro e he
    rcases h.isJoin e he with ⟨s, ip, rfl, hp⟩ | ⟨s, _, _, rfl, hp, -⟩ <;> exact ⟨_, hp⟩
  rcases mem_append.mp he with he | he
  · exact hjoin e (mem_append_left _ he)
  · rcases mem_cons.mp he with rfl | he
    · obtain ⟨s, _, hd, hp⟩ := h.isDepart
      rw [hd]
      exact ⟨_, hp⟩
    · exact hjoin e (mem_append_right _ he)

theorem mem_members_of_joins {cfg : Config} {events : List MembershipMessage}
    (hevents : ∀ e ∈ events, e ∈ h.before ++ h.after) {ring : GlobalHashRing cfg} {i : String} :
    i ∈ ((events.filterMap (opOn tier)).foldl RingOp.apply ring).members ↔
      i ∈ ring.members ∨ ∃ e ∈ events, ∃ op, e.opOn tier = some op ∧ op.Inserts i := by
  rw [RingOp.mem_members_foldl]
  · simp only [mem_filterMap]
    constructor
    · rintro (hi | ⟨op, ⟨e, he, hop⟩, hins⟩)
      · exact .inl hi
      · exact .inr ⟨e, he, op, hop, hins⟩
    · rintro (hi | ⟨e, he, op, hop, hins⟩)
      · exact .inl hi
      · exact .inr ⟨op, ⟨e, he, hop⟩, hins⟩
  · intro _ hop
    obtain ⟨e, he, hop⟩ := mem_filterMap.mp hop
    exact (join_effect (h.isJoin e (hevents e he)) hop).1 i

variable {srv : Server} {s s' : ServerState srv}

section
variable (hrun : h.messages.foldlM handle s = .ok s')
include hrun

theorem mem_members (i : String) : i ∈ (s'.globalHashRings tier).members ↔
      (i ≠ firstThreadId privateIp ∧ (i ∈ (s.globalHashRings tier).members ∨
        ∃ e ∈ h.before, ∃ op, e.opOn tier = some op ∧ op.Inserts i)) ∨
      ∃ e ∈ h.after, ∃ op, e.opOn tier = some op ∧ op.Inserts i := by
  obtain ⟨_, hdepart⟩ := h.isDepart.opOn
  rw [ring_of_run tier hrun, messages, filterMap_append, filterMap_cons, hdepart,
    foldl_append, foldl_cons,
    mem_members_of_joins fun e he => mem_append_right h.before he]
  refine or_congr_left ?_
  rw [RingOp.mem_members_apply, mem_members_of_joins fun e he => mem_append_left h.after he]
  simp only [RingOp.Inserts, RingOp.Removes, or_false]
  rw [and_comm]
  exact and_congr_left fun _ => not_congr eq_comm

/-- **Whether the departed server is back.** -/
theorem firstThreadId_mem_members_iff :
    firstThreadId privateIp ∈ (s'.globalHashRings tier).members ↔
      ∃ e ∈ h.after, IsJoinOf tier privateIp joinCount e := by
  rw [mem_members hrun]
  simp only [ne_eq, not_true_eq_false, false_and, false_or]
  refine exists_congr fun e => and_congr_right fun he => ?_
  have hjoin := h.isJoin e (mem_append_right _ he)
  constructor
  · rintro ⟨_, hop, hins⟩
    exact (join_effect hjoin hop).2.mp hins
  · intro hcopy
    obtain ⟨_, hop⟩ := hcopy.opOn
    exact ⟨_, hop, rfl⟩

theorem mem_members_of_joinsFirst (hfirst : h.JoinsFirst) (i : String) :
    i ∈ (s'.globalHashRings tier).members ↔
      i ≠ firstThreadId privateIp ∧ (i ∈ (s.globalHashRings tier).members ∨ h.Announces i) := by
  by_cases hi : i = firstThreadId privateIp
  · subst hi
    simp only [ne_eq, not_true_eq_false, false_and, iff_false]
    rw [firstThreadId_mem_members_iff hrun]
    exact fun ⟨e, he, hjoin⟩ => hfirst e he hjoin
  · rw [mem_members hrun]
    simp only [ne_eq, hi, not_false_eq_true, true_and]
    rw [or_assoc]
    refine or_congr_right ?_
    obtain ⟨_, hdepart⟩ := h.isDepart.opOn
    simp only [Announces, messages, mem_append, mem_cons, or_and_right, exists_or,
      exists_eq_left, hdepart, Option.some.injEq, exists_eq_left', RingOp.Inserts, false_or]

end

/-- The history is about servers of `U` only. -/
def Within (h : DepartureHistory tier privateIp joinCount) (U : Set String) : Prop :=
  Over U (h.messages.filterMap (opOn tier))

theorem placed_of_run {U : Set String} (hrun : h.messages.foldlM handle s = .ok s')
    (hU : NoCollision (globalHasher srv.strHash) U) (hwithin : h.Within U)
    (hmem : (s.globalHashRings tier).members ⊆ U)
    (hplaced : Placed (footprint (globalHasher srv.strHash)) (s.globalHashRings tier).members
      (s.globalHashRings tier).owner) :
    Placed (footprint (globalHasher srv.strHash)) (s'.globalHashRings tier).members
      (s'.globalHashRings tier).owner := by
  rw [ring_of_run tier hrun]
  exact (placed_foldl hU hwithin hmem hplaced).2

end DepartureHistory

open DepartureHistory

/-- **When a departed server stays out.**  A thread without keys processes every
history.  After it the server is absent from the members and from the virtual
nodes iff no copy of its join came after the departure; and if that is so for two
threads that process the same messages in two orders, starting with the same
members, they end with the same members and, when servers do not collide, with the
same owner of every slot. -/
theorem departed_server_absent_iff {tier : Tier} {privateIp : Address} {joinCount : Int}
    (h : DepartureHistory tier privateIp joinCount) {srv : Server} (s : ServerState srv) :
    (s.storedKeyMap = ∅ → ∃ s', h.messages.foldlM handle s = .ok s') ∧
    ∀ s', h.messages.foldlM handle s = .ok s' →
      ((firstThreadId privateIp ∉ (s'.globalHashRings tier).members ∧
        ∀ x, (s'.globalHashRings tier).owner x ≠ some (firstThreadId privateIp)) ↔ h.JoinsFirst) ∧
      ∀ (h₂ : DepartureHistory tier privateIp joinCount) (srv₂ : Server)
        (s₂ s₂' : ServerState srv₂),
        h₂.messages.Perm h.messages → h₂.messages.foldlM handle s₂ = .ok s₂' →
        h.JoinsFirst → h₂.JoinsFirst →
        (s₂.globalHashRings tier).members = (s.globalHashRings tier).members →
        (s₂'.globalHashRings tier).members = (s'.globalHashRings tier).members ∧
        ∀ U, srv₂.strHash = srv.strHash → NoCollision (globalHasher srv.strHash) U →
          h.Within U → (s.globalHashRings tier).members ⊆ U →
          Placed (footprint (globalHasher srv.strHash)) (s.globalHashRings tier).members
            (s.globalHashRings tier).owner →
          (∀ x, (s₂.globalHashRings tier).owner x = (s.globalHashRings tier).owner x) →
          ∀ x, (s₂'.globalHashRings tier).owner x = (s'.globalHashRings tier).owner x := by
  refine ⟨run_returns fun e he => parses he, fun s' hrun => ⟨?_, ?_⟩⟩
  · have hmem := firstThreadId_mem_members_iff hrun
    constructor
    · rintro ⟨habsent, -⟩ e he hjoin
      exact habsent (hmem.mpr ⟨e, he, hjoin⟩)
    · intro hfirst
      have habsent : firstThreadId privateIp ∉ (s'.globalHashRings tier).members :=
        fun hin => (hmem.mp hin).elim fun e he => hfirst e he.1 he.2
      exact ⟨habsent, fun x hx => habsent (HashRing.owner_mem hx).1⟩
  · intro h₂ srv₂ _ s₂' hperm hrun₂ hfirst hfirst₂ hmem
    have hmem' : (s₂'.globalHashRings tier).members = (s'.globalHashRings tier).members := by
      ext i
      rw [mem_members_of_joinsFirst hrun₂ hfirst₂, mem_members_of_joinsFirst hrun hfirst, hmem]
      simp only [Announces, hperm.mem_iff]
    refine ⟨hmem', fun U hhash hU hwithin hsub hplaced howner => ?_⟩
    -- both rings are placed by one hash, and placement determines the owners
    have hfoot : footprint (globalHasher srv₂.strHash) = footprint (globalHasher srv.strHash) := by
      rw [hhash]
    have hwithin₂ : h₂.Within U := fun op hop => hwithin op ((hperm.filterMap _).mem_iff.mp hop)
    have hend := placed_of_run hrun hU hwithin hsub hplaced
    have hend₂ := placed_of_run hrun₂ (hhash ▸ hU) hwithin₂ (hmem ▸ hsub) (by
      rw [hfoot, hmem, funext howner]
      exact hplaced)
    rw [hfoot, hmem'] at hend₂
    exact hend₂.unique hend

/-- A join, its departure, and the join of another node, in the order of sending. -/
def timelyHistory : DepartureHistory .memory "b" 0 where
  before := [.join "MEMORY:B:b:0"]
  depart := .depart "MEMORY:B:b"
  after := [.join "MEMORY:C:c:0"]
  isDepart := ⟨_, "B", rfl, by decide⟩
  isJoin e he := by
    rcases mem_cons.mp he with rfl | he
    · exact .inl ⟨_, "B", rfl, by decide⟩
    · obtain rfl := mem_singleton.mp he
      exact .inr ⟨_, ⟨.memory, "C", "c"⟩, 0, rfl, by decide, by decide⟩
  copy := ⟨_, mem_cons_self, _, "B", rfl, by decide⟩

/-- The server stays out after `timelyHistory`. -/
theorem timely_departure_absent :
    ∃ (srv : Server) (s s' : ServerState srv), timelyHistory.messages.foldlM handle s = .ok s' ∧
      firstThreadId "b" ∉ (s'.globalHashRings .memory).members := by
  obtain ⟨codecs⟩ := ValueCodecs.nonempty Int
  obtain ⟨replication⟩ := Codec.nonempty ReplicationFactor
  let srv := memoryServer codecs replication (fun _ => 0) ⟨"A", "a", 0, 0⟩
  let s := ServerState.initial srv (default : MemoryStore Int) 0
  obtain ⟨s', hrun⟩ := (departed_server_absent_iff timelyHistory s).1 rfl
  have hfirst : timelyHistory.JoinsFirst := by
    intro e he hjoin
    obtain rfl := mem_singleton.mp he
    obtain ⟨_, _, htext, hparse⟩ := hjoin
    cases htext
    have hc : parseJoin "MEMORY:C:c:0" = .ok (⟨.memory, "C", "c"⟩, 0) := by decide
    simp [hc] at hparse
  exact ⟨srv, s, s', hrun,
    (((departed_server_absent_iff timelyHistory s).2 s' hrun).1.mpr hfirst).1⟩

/-- The same join once more, after the departure. -/
def lateHistory : DepartureHistory .memory "b" 0 where
  before := [.join "MEMORY:B:b:0"]
  depart := .depart "MEMORY:B:b"
  after := [.join "MEMORY:B:b:0"]
  isDepart := ⟨_, "B", rfl, by decide⟩
  isJoin e he := by
    obtain rfl : e = .join "MEMORY:B:b:0" := by simpa using he
    exact .inl ⟨_, "B", rfl, by decide⟩
  copy := ⟨_, mem_cons_self, _, "B", rfl, by decide⟩

/-- **A departed server can come back.**  A thread processes the join of `b`, its
departure, and a late copy of the join: `b` is on the ring again. -/
theorem departed_server_rejoins : ¬ ∀ (tier : Tier) (privateIp : Address) (joinCount : Int)
      (h : DepartureHistory tier privateIp joinCount) (srv : Server) (s s' : ServerState srv),
      h.messages.foldlM handle s = .ok s' →
        firstThreadId privateIp ∉ (s'.globalHashRings tier).members := by
  intro hclaim
  obtain ⟨codecs⟩ := ValueCodecs.nonempty Int
  obtain ⟨replication⟩ := Codec.nonempty ReplicationFactor
  let s := ServerState.initial (memoryServer codecs replication (fun _ => 0) ⟨"A", "a", 0, 0⟩)
    (default : MemoryStore Int) 0
  obtain ⟨s', hrun⟩ := run_returns (fun e he => lateHistory.parses he) (s := s) rfl
  refine hclaim _ _ _ lateHistory _ s s' hrun ?_
  exact (firstThreadId_mem_members_iff hrun).mpr ⟨_, mem_singleton_self _, _, "B", rfl, by decide⟩

end Testbed.Anna
