import Testbed.Mica.Servers

/-! # Bursts

What becomes of the packets of a burst.  The requests of the burst are a list, told from the packets
alone; the ring holds those that were parsed and not retired, with room for the requests of one more
packet when the pipeline wants the next one.
-/
namespace Testbed.Mica

open Lib
open RequestBatchReader List Function Nat

/-! ## The requests of a burst -/

variable (l : List ParsedRequest)

/-- The last of the requests is marked. -/
def markedLast : List ParsedRequest :=
  l.dropLast ++ (l.getLast?.map fun pr => { pr with lastInPacket := true }).toList

variable (bufs : Nat → PacketBuffer)

/-- The requests of a packet, as they are parsed. -/
def parsedPacket (srcBuf : Nat) : List ParsedRequest :=
  if (bufs srcBuf).isRequestPacket then
    markedLast ((requestsOf (bufs srcBuf)).map (.ofReader srcBuf))
  else []

/-- The requests of the first `k` packets. -/
def parsedRequests (k : Nat) : List ParsedRequest :=
  (List.range k).flatMap (parsedPacket bufs)

/-- The packets among the first `k` that are released when they are parsed. -/
def emptyPackets (k : Nat) : List Nat :=
  (List.range k).filter fun srcBuf =>
    (bufs srcBuf).isRequestPacket && (parsedPacket bufs srcBuf).isEmpty

/-- The packets that are released with the requests. -/
def releases : List Nat :=
  (l.filter (·.lastInPacket)).map (·.srcBuf)

theorem markedLast_concat (pr : ParsedRequest) :
    markedLast (l ++ [pr]) = l ++ [{ pr with lastInPacket := true }] := by
  unfold markedLast
  rw [dropLast_concat, getLast?_concat]
  rfl

theorem length_markedLast : (markedLast l).length = l.length := by
  rcases eq_nil_or_concat' l with rfl | ⟨l, _, rfl⟩
  · rfl
  · rw [markedLast_concat, length_append, length_append]
    rfl

theorem releases_append (l l' : List ParsedRequest) :
    releases (l ++ l') = releases l ++ releases l' := by
  unfold releases
  rw [filter_append, map_append]

section Packets
variable {bufs : Nat → PacketBuffer} {srcBuf k packetCount : Nat}

theorem parsedPacket_of_not (h : (bufs srcBuf).isRequestPacket = false) :
    parsedPacket bufs srcBuf = [] := by
  unfold parsedPacket
  rw [h]
  rfl

theorem parsedPacket_of_isRequestPacket (h : (bufs srcBuf).isRequestPacket = true) :
    parsedPacket bufs srcBuf = markedLast ((requestsOf (bufs srcBuf)).map (.ofReader srcBuf)) :=
  if_pos h

theorem exists_parsedPacket_eq_concat (h : parsedPacket bufs srcBuf ≠ []) :
    ∃ l pr, parsedPacket bufs srcBuf = l ++ [{ pr with lastInPacket := true }] ∧
      l ++ [pr] = (requestsOf (bufs srcBuf)).map (.ofReader srcBuf) := by
  unfold parsedPacket at h ⊢
  split
  · rcases eq_nil_or_concat' ((requestsOf (bufs srcBuf)).map (ParsedRequest.ofReader srcBuf)) with
      hnil | ⟨l, pr, hl⟩
    · rw [hnil] at h
      exact absurd (ite_self _) h
    · rw [hl, markedLast_concat]
      exact ⟨l, pr, rfl, rfl⟩
  · rename_i hnot
    rw [if_neg hnot] at h
    exact absurd rfl h

theorem releases_parsedPacket : releases (parsedPacket bufs srcBuf) =
      if (parsedPacket bufs srcBuf).isEmpty then [] else [srcBuf] := by
  by_cases hnil : parsedPacket bufs srcBuf = []
  · rw [hnil]
    rfl
  · obtain ⟨l, pr, hparsed, hl⟩ := exists_parsedPacket_eq_concat hnil
    have hentry : ∀ x ∈ l ++ [pr], x.lastInPacket = false ∧ x.srcBuf = srcBuf := by
      rw [hl]
      intro x hx
      obtain ⟨r, -, rfl⟩ := mem_map.mp hx
      exact ⟨rfl, rfl⟩
    have hl' : releases l = [] := by
      unfold releases
      rw [map_eq_nil_iff, filter_eq_nil_iff]
      intro x hx
      rw [(hentry x (mem_append_left _ hx)).1]
      exact Bool.false_ne_true
    rw [if_neg (by rwa [List.isEmpty_iff]), hparsed, releases_append, hl', List.nil_append]
    exact congrArg (fun j => [j]) (hentry pr (mem_append_right _ (mem_singleton_self _))).2

theorem parsedRequests_succ :
    parsedRequests bufs (k + 1) = parsedRequests bufs k ++ parsedPacket bufs k := by
  unfold parsedRequests
  rw [range_succ, flatMap_append, flatMap_singleton]

theorem emptyPackets_succ : emptyPackets bufs (k + 1) = emptyPackets bufs k ++
      if (bufs k).isRequestPacket && (parsedPacket bufs k).isEmpty then [k] else [] := by
  unfold emptyPackets
  rw [range_succ, filter_append, filter_singleton, Bool.cond_eq_ite]

theorem parsedRequests_isPrefix (bufs : Nat → PacketBuffer) (hk : k ≤ packetCount) :
    parsedRequests bufs k <+: parsedRequests bufs packetCount := by
  induction packetCount with
  | zero => rw [le_zero.mp hk]
  | succ _ ih =>
    rcases le_succ_iff.mp hk with hle | rfl
    · rw [parsedRequests_succ]
      exact (ih hle).trans (prefix_append _ _)
    · exact prefix_rfl

/-- **All packets with requests are released** in the end, and no others. -/
theorem releases_perm : (emptyPackets bufs k ++ releases (parsedRequests bufs k)).Perm
    ((List.range k).filter fun srcBuf => (bufs srcBuf).isRequestPacket) := by
  induction k with
  | zero => exact List.Perm.nil
  | succ k ih =>
    rw [emptyPackets_succ, parsedRequests_succ, releases_append, releases_parsedPacket,
      range_succ, filter_append, filter_singleton, Bool.cond_eq_ite]
    cases hrequest : (bufs k).isRequestPacket with
    | false =>
      rw [parsedPacket_of_not hrequest]
      simpa using ih
    | true =>
      cases hempty : (parsedPacket bufs k).isEmpty with
      | false => simpa using ih.append_right [k]
      | true =>
        have hmoved : (emptyPackets bufs k ++ [k] ++ releases (parsedRequests bufs k)).Perm
            (emptyPackets bufs k ++ releases (parsedRequests bufs k) ++ [k]) := by
          rw [append_assoc, append_assoc]
          exact perm_append_comm.append_left _
        simpa using hmoved.trans (ih.append_right [k])

theorem length_parsedPacket_le (hlong : (bufs srcBuf).length ≤ kMaxPacketLength) :
    (parsedPacket bufs srcBuf).length ≤ kMaxRequestsPerPacket := by
  unfold parsedPacket
  split
  · rw [length_markedLast, length_map]
    refine (length_requestsOf_le _).trans ?_
    unfold kMaxPacketLength kEtherMaxLen kEtherCrcLen at hlong
    unfold sizeofRequestBatchHeader sizeofRequestHeader kMaxRequestsPerPacket
    omega
  · exact zero_le _

theorem length_parsedRequests_le (hlong : ∀ j < k, (bufs j).length ≤ kMaxPacketLength) :
    (parsedRequests bufs k).length ≤ k * kMaxRequestsPerPacket := by
  induction k with
  | zero => exact zero_le _
  | succ k ih =>
    rw [parsedRequests_succ, length_append, Nat.succ_mul]
    exact Nat.add_le_add (ih fun j hj => hlong j (by omega))
      (length_parsedPacket_le (hlong k (Nat.lt_succ_self k)))

end Packets

namespace ServerAccessor
variable {cfg : ServerConfig}

/-! ## Parsing -/

/-- **Between two calls** of the pipeline: `p` requests were prepared, and `r` of them retired. -/
structure Parsing (bufs : Nat → PacketBuffer) (packetCount p r : Nat) (a : ServerAccessor cfg) :
    Prop where
  bufs_eq : a.bufs = bufs
  packetCount_eq : a.packetCount = packetCount
  parsed_le : a.nextPacketIndexToParse ≤ packetCount
  nextIndexToPrepare_eq :
    a.nextIndexToPrepare = (parsedRequests bufs a.nextPacketIndexToParse).length
  prepared_le : p ≤ a.nextIndexToPrepare
  nextIndexToRetire_eq : a.nextIndexToRetire = r
  room : a.nextIndexToPrepare ≤ r + cfg.kMaxParsedRequestCount
  ring : InRing cfg.kMaxParsedRequestCount a.requests r
    (parsedRequests bufs a.nextPacketIndexToParse)
  overwritten_eq : a.overwritten = false
  released_perm : a.released.Perm (emptyPackets bufs a.nextPacketIndexToParse ++
    releases ((parsedRequests bufs packetCount).take r))

/-- **A burst as the network delivers it**, with a stage gap for which the ring is large enough: the
requests of one more packet fit when those of the whole pipeline are not retired. -/
structure Received (cfg : ServerConfig) (bufs : Nat → PacketBuffer) (packetCount stageGap : Nat) :
    Prop where
  packetCount_le : packetCount ≤ cfg.kRXBurst
  length_le : ∀ srcBuf < packetCount, (bufs srcBuf).length ≤ kMaxPacketLength
  room : 3 * stageGap + kMaxRequestsPerPacket ≤ cfg.kMaxParsedRequestCount
  stageGap_lt : stageGap < 256

section Steps
variable {bufs : Nat → PacketBuffer} {packetCount stageGap p r : Nat} {a : ServerAccessor cfg}

section
variable (hburst : Received cfg bufs packetCount stageGap)
include hburst

theorem Received.packetCount_lt : packetCount < 2 ^ 16 := by
  have hle := hburst.packetCount_le
  have hlt := cfg.kRXBurst_lt
  unfold kMaxRequestsPerPacket at hlt
  omega

theorem Received.length_parsedRequests_lt : (parsedRequests bufs packetCount).length < 2 ^ 16 :=
  ((length_parsedRequests_le hburst.length_le).trans
    (mul_le_mul_right _ hburst.packetCount_le)).trans_lt cfg.kRXBurst_lt

theorem nextPacketIndexToParse_nextPacket (hmore : a.nextPacketIndexToParse < packetCount) :
    a.nextPacket.nextPacketIndexToParse = a.nextPacketIndexToParse + 1 :=
  mod_eq_of_lt (lt_of_le_of_lt hmore hburst.packetCount_lt)

end

section
variable (h : Parsing bufs packetCount p r a)
include h

section
variable (hburst : Received cfg bufs packetCount stageGap)
include hburst

section
variable (hmore : a.nextPacketIndexToParse < packetCount)
include hmore

/-- A packet without requests: only what is released may change. -/
theorem Parsing.passOver
    (hnil : parsedPacket bufs a.nextPacketIndexToParse = []) {released : List Nat}
    (hreleased : released.Perm (emptyPackets bufs (a.nextPacketIndexToParse + 1) ++
      releases ((parsedRequests bufs packetCount).take r))) :
    Parsing bufs packetCount p r ({ a.nextPacket with released } : ServerAccessor cfg) := by
  have hnext := nextPacketIndexToParse_nextPacket hburst hmore
  have hparsed : parsedRequests bufs a.nextPacket.nextPacketIndexToParse =
      parsedRequests bufs a.nextPacketIndexToParse := by
    rw [hnext, parsedRequests_succ, hnil, append_nil]
  exact
    { bufs_eq := h.bufs_eq
      packetCount_eq := h.packetCount_eq
      parsed_le := (hnext ▸ hmore : a.nextPacket.nextPacketIndexToParse ≤ packetCount)
      nextIndexToPrepare_eq := h.nextIndexToPrepare_eq.trans (congrArg List.length hparsed.symm)
      prepared_le := h.prepared_le
      nextIndexToRetire_eq := h.nextIndexToRetire_eq
      room := h.room
      ring := (hparsed.symm ▸ h.ring : InRing _ a.requests r
        (parsedRequests bufs a.nextPacket.nextPacketIndexToParse))
      overwritten_eq := h.overwritten_eq
      released_perm := hnext.symm ▸ hreleased }

theorem Parsing.skip (hnot : (bufs a.nextPacketIndexToParse).isRequestPacket = false) :
    Parsing bufs packetCount p r a.nextPacket := by
  have hempty : emptyPackets bufs (a.nextPacketIndexToParse + 1) =
      emptyPackets bufs a.nextPacketIndexToParse := by
    rw [emptyPackets_succ, hnot, Bool.false_and, if_neg Bool.false_ne_true, append_nil]
  exact h.passOver hburst hmore (parsedPacket_of_not hnot) (hempty.symm ▸ h.released_perm)

theorem Parsing.releaseEmpty (hrequest : (bufs a.nextPacketIndexToParse).isRequestPacket = true)
    (hnil : parsedPacket bufs a.nextPacketIndexToParse = []) :
    Parsing bufs packetCount p r (a.nextPacket.release a.nextPacketIndexToParse) := by
  have hempty : emptyPackets bufs (a.nextPacketIndexToParse + 1) =
      emptyPackets bufs a.nextPacketIndexToParse ++ [a.nextPacketIndexToParse] := by
    rw [emptyPackets_succ, hrequest, hnil]
    rfl
  refine h.passOver hburst hmore hnil ((h.released_perm.append_right _).trans ?_)
  rw [hempty, append_assoc, append_assoc]
  exact perm_append_comm.append_left _

end

theorem Parsing.exists_ring (hall : a.nextIndexToPrepare = p)
    (hr : r ≤ p) (hwindow : p ≤ r + 3 * stageGap) (hmore : a.nextPacketIndexToParse < packetCount)
    (hsome : parsedPacket bufs a.nextPacketIndexToParse ≠ []) :
    ∃ ring, ((requestsOf (bufs a.nextPacketIndexToParse)).foldl
        (parseRequest a.nextPacketIndexToParse) a.nextPacket).markLast =
        { a.nextPacket with
          requests := ring
          nextIndexToPrepare := p + (parsedPacket bufs a.nextPacketIndexToParse).length } ∧
      InRing cfg.kMaxParsedRequestCount ring r
        (parsedRequests bufs (a.nextPacketIndexToParse + 1)) := by
  obtain ⟨l, _, hpacket, hl⟩ := exists_parsedPacket_eq_concat hsome
  have hfew := length_parsedPacket_le (hburst.length_le _ hmore)
  have htotal := (parsedRequests_isPrefix bufs (succ_le_of_lt hmore)).length_le.trans_lt
    hburst.length_parsedRequests_lt
  rw [succ_eq_add_one, parsedRequests_succ, length_append] at htotal
  have hroom := hburst.room
  have hprepare := h.nextIndexToPrepare_eq
  have hcount : (requestsOf (bufs a.nextPacketIndexToParse)).length = l.length + 1 := by
    have hlength := congrArg List.length hl
    rw [length_append, length_singleton, length_map] at hlength
    exact hlength.symm
  rw [parsedRequests_succ, hpacket, ← append_assoc]
  rw [hpacket, length_append, length_singleton] at hfew htotal
  rw [hall] at hprepare
  obtain ⟨ring, hfold, hring⟩ := foldl_parseRequest a.nextPacketIndexToParse
    (requestsOf (bufs a.nextPacketIndexToParse)) (a := a.nextPacket) h.ring
    h.nextIndexToPrepare_eq h.nextIndexToRetire_eq (by omega) (by omega) (by omega)
  rw [← hl, ← append_assoc] at hring
  rw [hcount, ← hprepare] at hfold
  have hbefore : (parsedRequests bufs a.nextPacketIndexToParse ++ l).length = p + l.length := by
    rw [length_append, ← hprepare]
  rw [hfold, length_append, length_singleton]
  obtain ⟨ring', hmark, hring'⟩ := markLast_eq
    (a := { a.nextPacket with requests := ring, nextIndexToPrepare := p + (l.length + 1) })
    (by omega) hring (by rw [hbefore, add_assoc]) (by omega)
  exact ⟨ring', hmark, hring'⟩

/-- **A packet with requests** is parsed into the ring. -/
theorem Parsing.parsePacket (hall : a.nextIndexToPrepare = p)
    (hr : r ≤ p) (hwindow : p ≤ r + 3 * stageGap) (hmore : a.nextPacketIndexToParse < packetCount)
    (hsome : parsedPacket bufs a.nextPacketIndexToParse ≠ []) :
    Parsing bufs packetCount (p + 1) r ((requestsOf (bufs a.nextPacketIndexToParse)).foldl
        (parseRequest a.nextPacketIndexToParse) a.nextPacket).markLast := by
  obtain ⟨ring, hparse, hring⟩ := h.exists_ring hburst hall hr hwindow hmore hsome
  have hnext := nextPacketIndexToParse_nextPacket hburst hmore
  have hfew := length_parsedPacket_le (hburst.length_le _ hmore)
  have hroom := hburst.room
  have hpos := length_pos_iff.mpr hsome
  have hprepare := h.nextIndexToPrepare_eq
  have hempty : emptyPackets bufs (a.nextPacketIndexToParse + 1) =
      emptyPackets bufs a.nextPacketIndexToParse := by
    rw [emptyPackets_succ, if_neg, List.append_nil]
    rw [Bool.and_eq_true, List.isEmpty_iff]
    exact fun hboth => hsome hboth.2
  rw [hparse]
  refine
    { bufs_eq := h.bufs_eq
      packetCount_eq := h.packetCount_eq
      parsed_le := ?_
      nextIndexToPrepare_eq := ?_
      prepared_le := Nat.add_le_add_left hpos p
      nextIndexToRetire_eq := h.nextIndexToRetire_eq
      room := ?_
      ring := ?_
      overwritten_eq := h.overwritten_eq
      released_perm := ?_ }
  · dsimp only
    rw [hnext]
    exact hmore
  · dsimp only
    rw [hnext, parsedRequests_succ, length_append, ← hprepare, hall]
  · dsimp only
    omega
  · dsimp only
    rw [hnext]
    exact hring
  · dsimp only
    rw [hnext, hempty]
    exact h.released_perm

end

end

/-- **`parse_request_batch`**: there is another request if there is one in the packets that are
left. -/
theorem Parsing.parseLoop {fuel : Nat} (h : Parsing bufs packetCount p r a)
    (hburst : Received cfg bufs packetCount stageGap) (hall : a.nextIndexToPrepare = p)
    (hr : r ≤ p) (hwindow : p ≤ r + 3 * stageGap)
    (hfuel : packetCount < fuel + a.nextPacketIndexToParse) :
    (parseLoop fuel a).1 = decide (p < (parsedRequests bufs packetCount).length) ∧
      Parsing bufs packetCount (min (p + 1) (parsedRequests bufs packetCount).length) r
        (parseLoop fuel a).2 ∧
      ((parsedRequests bufs packetCount).length ≤ p →
        (parseLoop fuel a).2.nextPacketIndexToParse = packetCount) := by
  induction fuel generalizing a with
  | zero =>
    have hle := h.parsed_le
    omega
  | succ _ ih =>
    unfold ServerAccessor.parseLoop
    by_cases hmore : a.nextPacketIndexToParse < packetCount
    · rw [if_pos (h.packetCount_eq.symm ▸ hmore)]
      dsimp only
      have hnext := nextPacketIndexToParse_nextPacket hburst hmore
      rw [h.bufs_eq]
      cases hrequest : (bufs a.nextPacketIndexToParse).isRequestPacket with
      | false =>
        exact ih (h.skip hburst hmore hrequest) hall (by omega)
      | true =>
        rw [if_pos rfl]
        by_cases hnil : parsedPacket bufs a.nextPacketIndexToParse = []
        · have hno : requestsOf (bufs a.nextPacketIndexToParse) = [] := by
            rw [parsedPacket_of_isRequestPacket hrequest] at hnil
            have hlength := congrArg List.length hnil
            rw [length_markedLast, length_map, length_nil] at hlength
            exact eq_nil_of_length_eq_zero hlength
          rw [hno, foldl_nil, if_pos rfl]
          exact ih (h.releaseEmpty hburst hmore hrequest hnil) hall (by dsimp only [release]; omega)
        · have hparse := h.parsePacket hburst hall hr hwindow hmore hnil
          have hprefix := (parsedRequests_isPrefix bufs hparse.parsed_le).length_le
          have hprepared := hparse.prepared_le
          rw [hparse.nextIndexToPrepare_eq] at hprepared
          rw [if_neg]
          · refine ⟨(decide_eq_true (by omega)).symm, ?_, fun hle => by omega⟩
            rw [min_eq_left (by omega)]
            exact hparse
          · have hnext := hparse.prepared_le
            intro heq
            have hsame : a.nextIndexToPrepare = _ := heq
            have hmark : ∀ a' : ServerAccessor cfg,
                a'.markLast.nextIndexToPrepare = a'.nextIndexToPrepare := fun _ => rfl
            rw [hmark, ← hsame, hall] at hnext
            omega
    · rw [if_neg (h.packetCount_eq.symm ▸ hmore)]
      have hdone : a.nextPacketIndexToParse = packetCount := by
        have hle := h.parsed_le
        omega
      have hprepare := h.nextIndexToPrepare_eq
      rw [hdone, hall] at hprepare
      refine ⟨(decide_eq_false (by omega)).symm, ?_, fun _ => hdone⟩
      rw [min_eq_right (by omega), ← hprepare]
      exact h

/-! ## Retiring -/

section
variable (h : Parsing bufs packetCount p r a)
include h

theorem Parsing.entry {i : Nat} (hr : r ≤ i) (hi : i < p) :
    (parsedRequests bufs packetCount)[i]? = some (a.parsedRequest i) := by
  have hprepared := h.prepared_le
  rw [h.nextIndexToPrepare_eq] at hprepared
  have hlt : i < (parsedRequests bufs a.nextPacketIndexToParse).length := by omega
  have hget := getElem?_eq_getElem hlt
  have hentry : a.parsedRequest i = (parsedRequests bufs a.nextPacketIndexToParse)[i] := by
    unfold parsedRequest
    rw [and_kParsedRequestMask]
    exact h.ring i _ hr hget
  obtain ⟨_, hrest⟩ := parsedRequests_isPrefix bufs h.parsed_le
  rw [← hrest, getElem?_append_left hlt, hget, hentry]

theorem Parsing.releases_take_succ (hr : r < p) :
    releases ((parsedRequests bufs packetCount).take (r + 1)) =
      releases ((parsedRequests bufs packetCount).take r) ++
        if (a.parsedRequest r).lastInPacket then [(a.parsedRequest r).srcBuf] else [] := by
  rw [take_add_one, h.entry (le_refl r) hr, Option.toList_some, releases_append]
  unfold releases
  rw [filter_singleton, Bool.cond_eq_ite]
  split
  · rfl
  · rfl

/-- **A request is retired**, and with the last one of a packet the packet is released. -/
theorem Parsing.answer (hburst : Received cfg bufs packetCount stageGap) (hr : r < p)
    (hspace : a.pendingResponseBatch.b.remainingSpace ≠ 0) (outcome : Outcome) :
    Parsing bufs packetCount p (r + 1) (RequestAccessor.answer a r outcome) := by
  have hprefix := (parsedRequests_isPrefix bufs h.parsed_le).length_le
  have htotal := hburst.length_parsedRequests_lt
  have hprepared := h.prepared_le
  have hroom := h.room
  rw [h.nextIndexToPrepare_eq] at hprepared
  have hretired : (a.nextIndexToRetire + 1) % 2 ^ 16 = r + 1 := by
    rw [h.nextIndexToRetire_eq]
    exact mod_eq_of_lt (by omega)
  have hreleases := h.releases_take_succ hr
  cases hlast : (a.parsedRequest r).lastInPacket with
  | false =>
    obtain ⟨batch, hanswer, -⟩ := a.answer_of_not_last r outcome hspace hlast
    rw [hlast, if_neg Bool.false_ne_true, append_nil] at hreleases
    rw [hanswer, hretired]
    exact
      { h with
        nextIndexToRetire_eq := rfl
        room := hroom.trans (by omega)
        ring := h.ring.mono (le_succ r)
        released_perm := hreleases.symm ▸ h.released_perm }
  | true =>
    obtain ⟨_, t, hanswer, -⟩ := a.answer_of_last r outcome hlast
    rw [hlast, if_pos rfl] at hreleases
    rw [hanswer, hretired]
    refine
      { h with
        nextIndexToRetire_eq := rfl
        room := hroom.trans (by omega)
        ring := h.ring.mono (le_succ r)
        released_perm := ?_ }
    rw [hreleases, ← append_assoc]
    exact h.released_perm.append_right _

end

end Steps

/-! ## What parsing leaves -/

/-- The pending response batch is the same, and so are the buffers for those to come. -/
structure SameBatch (a a' : ServerAccessor cfg) : Prop where
  pendingResponseBatch : a'.pendingResponseBatch = a.pendingResponseBatch
  buffers : a'.buffers = a.buffers
  allocated : a'.allocated = a.allocated

/-- The responses are the same. -/
structure SameOutput (a a' : ServerAccessor cfg) : Prop extends SameBatch a a' where
  eid : a'.eid = a.eid
  txStates : a'.txStates = a.txStates

/-- A request is answered: the calls of the pipeline, with the entry of the ring. -/
def respond (a : ServerAccessor cfg) (x : ParsedRequest × Outcome) : ServerAccessor cfg :=
  (a.tell x.2).retireRequest x.1

theorem answer_eq_respond (a : ServerAccessor cfg) (index : Nat) (outcome : Outcome) :
    RequestAccessor.answer a index outcome = a.respond (a.parsedRequest index, outcome) := by
  rw [answer_eq]
  unfold retire
  rw [parsedRequest_tell]
  rfl

section
variable {a a' a'' : ServerAccessor cfg}

theorem SameBatch.trans (h : SameBatch a a') (h' : SameBatch a' a'') : SameBatch a a'' :=
  ⟨h'.pendingResponseBatch.trans h.pendingResponseBatch, h'.buffers.trans h.buffers,
    h'.allocated.trans h.allocated⟩

theorem SameOutput.trans (h : SameOutput a a') (h' : SameOutput a' a'') : SameOutput a a'' :=
  ⟨h.toSameBatch.trans h'.toSameBatch, h'.eid.trans h.eid, h'.txStates.trans h.txStates⟩

theorem SameBatch.appendResponse_tell (h : SameBatch a a') (x : ParsedRequest × Outcome) :
    SameBatch ((a.tell x.2).appendResponse x.1) ((a'.tell x.2).appendResponse x.1) := by
  cases a
  cases a'
  obtain ⟨rfl, rfl, rfl⟩ := h
  unfold tell
  cases x.2.outValue <;> exact ⟨rfl, rfl, rfl⟩

theorem SameBatch.flush_makeNew (h : SameBatch a a') (srcBuf : Nat) :
    SameBatch (a.flushPendingResponseBatch srcBuf).makeNewPendingResponseBatch
      (a'.flushPendingResponseBatch srcBuf).makeNewPendingResponseBatch := by
  obtain ⟨_, hflush, -⟩ := a.flush_makeNew_eq srcBuf
  obtain ⟨_, hflush', -⟩ := a'.flush_makeNew_eq srcBuf
  rw [hflush, hflush']
  refine ⟨?_, h.buffers, congrArg (· + 1) h.allocated⟩
  dsimp only
  rw [h.pendingResponseBatch, h.buffers, h.allocated]

/-- **The response batches do not depend on what was parsed meanwhile.** -/
theorem SameBatch.respond (h : SameBatch a a') (x : ParsedRequest × Outcome) :
    SameBatch (a.respond x) (a'.respond x) := by
  have happended := h.appendResponse_tell x
  unfold ServerAccessor.respond retireRequest
  dsimp only
  have hflushed := happended.flush_makeNew x.1.srcBuf
  rw [happended.pendingResponseBatch]
  split
  all_goals
    split
    · exact ⟨hflushed.1, hflushed.2, hflushed.3⟩
    · exact ⟨happended.1, happended.2, happended.3⟩

variable (srcBuf : Nat)

theorem sameOutput_release : SameOutput a (a.release srcBuf) :=
  ⟨⟨rfl, rfl, rfl⟩, rfl, rfl⟩

theorem sameOutput_parseRequest (x : RequestBatchReader) :
    SameOutput a (parseRequest srcBuf a x) :=
  ⟨⟨rfl, rfl, rfl⟩, rfl, rfl⟩

theorem sameOutput_foldl (xs : List RequestBatchReader) :
    SameOutput a (xs.foldl (parseRequest srcBuf) a) := by
  induction xs generalizing a with
  | nil => exact ⟨⟨rfl, rfl, rfl⟩, rfl, rfl⟩
  | cons x _ ih => exact (sameOutput_parseRequest srcBuf x).trans ih

theorem sameOutput_parseLoop (fuel : Nat) : SameOutput a (parseLoop fuel a).2 := by
  induction fuel generalizing a with
  | zero => exact ⟨⟨rfl, rfl, rfl⟩, rfl, rfl⟩
  | succ _ ih =>
    unfold parseLoop
    split
    · have hnext : SameOutput a a.nextPacket := ⟨⟨rfl, rfl, rfl⟩, rfl, rfl⟩
      have hfold := hnext.trans (sameOutput_foldl a.nextPacketIndexToParse
        (requestsOf (a.bufs a.nextPacketIndexToParse)))
      dsimp only
      split
      · split
        · exact (hfold.trans (sameOutput_release _)).trans ih
        · exact hfold.trans ⟨⟨rfl, rfl, rfl⟩, rfl, rfl⟩
      · exact hnext.trans ih
    · exact ⟨⟨rfl, rfl, rfl⟩, rfl, rfl⟩

theorem sameOutput_prepare (index : Nat) : SameOutput a (a.prepare index).2 := by
  unfold prepare
  split
  · exact sameOutput_parseLoop _
  · exact ⟨⟨rfl, rfl, rfl⟩, rfl, rfl⟩

end

/-! ## The response buffers -/

/-- **No response buffer is lost**: each one that was allocated is the pending response batch, or it
was handed to one endpoint, where it is in `pending_tx` or was sent. -/
structure Conserved (a : ServerAccessor cfg) : Prop where
  pending_lt : a.pendingResponseBatch.id < a.allocated
  handed_lt : ∀ eid, ∀ response ∈ (a.txStates eid).handed,
    response.id < a.allocated ∧ response.id ≠ a.pendingResponseBatch.id
  held : ∀ id < a.allocated, id = a.pendingResponseBatch.id ∨
    ∃ eid, ∃ response ∈ (a.txStates eid).handed, response.id = id
  nodup : ∀ eid, ((a.txStates eid).handed.map ResponseBuffer.id).Nodup
  apart : ∀ eid eid', eid ≠ eid' → ∀ x ∈ (a.txStates eid).handed,
    ∀ y ∈ (a.txStates eid').handed, x.id ≠ y.id

section Conserved
variable {a a' : ServerAccessor cfg}

theorem Conserved.of_handed (h : a.Conserved)
    (hpending : a'.pendingResponseBatch.id = a.pendingResponseBatch.id)
    (hallocated : a'.allocated = a.allocated)
    (hhanded : ∀ eid, (a'.txStates eid).handed = (a.txStates eid).handed) : a'.Conserved := by
  constructor
  · rw [hpending, hallocated]
    exact h.pending_lt
  · simp only [hpending, hallocated, hhanded]
    exact h.handed_lt
  · simp only [hpending, hallocated, hhanded]
    exact h.held
  · simp only [hhanded]
    exact h.nodup
  · simp only [hhanded]
    exact h.apart

theorem Conserved.of_sameOutput (h : a.Conserved) (hsame : SameOutput a a') : a'.Conserved :=
  h.of_handed (congrArg _ hsame.pendingResponseBatch) hsame.allocated fun eid => by
    rw [hsame.txStates]

theorem mem_handed_flush {eid : Nat} {t : TxState} {flushed : ResponseBuffer}
    (hhanded : t.handed = (a.txStates eid).handed ++ [flushed])
    (htx : a'.txStates = update a.txStates eid t) (e : Nat) (response : ResponseBuffer) :
    response ∈ (a'.txStates e).handed ↔
      response ∈ (a.txStates e).handed ∨ e = eid ∧ response = flushed := by
  rw [htx]
  by_cases he : e = eid
  · subst he
    rw [update_self, hhanded, mem_append, mem_singleton]
    simp only [true_and]
  · rw [update_of_ne he]
    simp only [he, false_and, or_false]

theorem Conserved.flush (h : a.Conserved) {eid : Nat} {t : TxState} {packet : PacketBuffer}
    (hhanded : t.handed = (a.txStates eid).handed ++ [⟨a.pendingResponseBatch.id, packet⟩])
    (hpending : a'.pendingResponseBatch.id = a.allocated)
    (htx : a'.txStates = update a.txStates eid t)
    (hallocated : a'.allocated = a.allocated + 1) : a'.Conserved := by
  have hmem := mem_handed_flush hhanded htx
  have hlt : ∀ e response, response ∈ (a'.txStates e).handed → response.id < a.allocated := by
    intro e response hresponse
    rcases (hmem e response).mp hresponse with hold | ⟨-, rfl⟩
    · exact (h.handed_lt e response hold).1
    · exact h.pending_lt
  refine ⟨?_, fun e response hresponse => ?_, fun id hid => ?_, fun e => ?_,
    fun e e' hne x hx y hy => ?_⟩
  · rw [hpending, hallocated]
    exact lt_succ_self _
  · have hold := hlt e response hresponse
    rw [hpending, hallocated]
    exact ⟨Nat.lt_succ_of_lt hold, Nat.ne_of_lt hold⟩
  · rw [hallocated] at hid
    rw [hpending]
    rcases Nat.lt_succ_iff_lt_or_eq.mp hid with hlt' | heq
    · refine Or.inr ?_
      rcases h.held id hlt' with hpend | ⟨e, response, hresponse, hid'⟩
      · exact ⟨eid, _, (hmem eid _).mpr (Or.inr ⟨rfl, rfl⟩), hpend.symm⟩
      · exact ⟨e, response, (hmem e response).mpr (Or.inl hresponse), hid'⟩
    · exact Or.inl heq
  · rw [htx]
    by_cases he : e = eid
    · rw [he, update_self, hhanded, map_append, map_singleton,
        nodup_append_comm, singleton_append, nodup_cons]
      refine ⟨fun hin => ?_, h.nodup eid⟩
      obtain ⟨response, hresponse, hid⟩ := mem_map.mp hin
      exact (h.handed_lt eid response hresponse).2 hid
    · rw [update_of_ne he]
      exact h.nodup e
  · rcases (hmem e x).mp hx with hx | ⟨he, rfl⟩
    · rcases (hmem e' y).mp hy with hy | ⟨-, rfl⟩
      · exact h.apart e e' hne x hx y hy
      · exact (h.handed_lt e x hx).2
    · rcases (hmem e' y).mp hy with hy | ⟨he', -⟩
      · exact (h.handed_lt e' y hy).2.symm
      · exact absurd (he.trans he'.symm) hne

theorem Conserved.answer (h : a.Conserved) (index : Nat)
    (hspace : a.pendingResponseBatch.b.remainingSpace ≠ 0) (outcome : Outcome) :
    (RequestAccessor.answer a index outcome).Conserved := by
  cases hlast : (a.parsedRequest index).lastInPacket with
  | false =>
    obtain ⟨batch, hanswer, hid, -⟩ := a.answer_of_not_last index outcome hspace hlast
    rw [hanswer]
    exact ⟨hid.symm ▸ h.pending_lt, hid.symm ▸ h.handed_lt, hid.symm ▸ h.held, h.nodup, h.apart⟩
  | true =>
    obtain ⟨_, t, hanswer, hhanded, -⟩ := a.answer_of_last index outcome hlast
    rw [hanswer]
    exact h.flush hhanded rfl rfl rfl

end Conserved

end ServerAccessor

end Testbed.Mica
