import Testbed.Mica.Matching

/-! # Partitions and endpoints

`update_remote_eid` looks for an endpoint whose lcore owns the partition, but passes over the one
that is in use.  With two such endpoints every call changes to the other one, and without any the
old index stays (`updateRemoteEid_routes_iff`).
-/
namespace Testbed.Mica

/-- The lcore of the endpoint owns the partition. -/
def Server.Serves (s : Server) (partitionId eindex : Nat) : Prop :=
  eindex < s.endpointCount ∧ (s.endpoints eindex).ownerLcoreId = s.partitions partitionId

namespace Client
variable {cfg : ClientConfig} {α : Type} (c : Client cfg α) (s : Server) (partitionId index : Nat)

theorem newRemoteEidIndex_cases : s.Serves partitionId (newRemoteEidIndex s partitionId index) ∧
        newRemoteEidIndex s partitionId index ≠ index ∨
      newRemoteEidIndex s partitionId index = index ∧
        ∀ eindex, s.Serves partitionId eindex → eindex = index := by
  unfold newRemoteEidIndex
  cases hfind : (List.range s.endpointCount).find? _ with
  | none =>
    refine Or.inr ⟨rfl, fun eindex ⟨hlt, howner⟩ => ?_⟩
    by_contra hne
    exact List.find?_eq_none.mp hfind eindex (List.mem_range.mpr hlt)
      (decide_eq_true ⟨howner, Ne.symm hne⟩)
  | some eindex =>
    have hfound := List.find?_some hfind
    obtain ⟨howner, hne⟩ := of_decide_eq_true hfound
    exact Or.inl ⟨⟨List.mem_range.mp (List.mem_of_find?_eq_some hfind), howner⟩, Ne.symm hne⟩

/-- The index names an endpoint of the owner, or says that there is none. -/
def Routes (cfg : ClientConfig) (s : Server) (partitionId index : Nat) : Prop :=
  ((∃ eindex, s.Serves partitionId eindex) → s.Serves partitionId index) ∧
    ((∀ eindex, ¬ s.Serves partitionId eindex) → index = cfg.kMaxEndpointsPerServer)

theorem newRemoteEidIndex_routes_iff {new : Nat}
    (hnew : newRemoteEidIndex s partitionId index = new) :
    Routes cfg s partitionId new ∧ newRemoteEidIndex s partitionId new = new ↔
      {eindex | s.Serves partitionId eindex}.Subsingleton ∧
        ((∀ eindex, ¬ s.Serves partitionId eindex) → index = cfg.kMaxEndpointsPerServer) := by
  have hcases := newRemoteEidIndex_cases s partitionId index
  have hagain := newRemoteEidIndex_cases s partitionId new
  rw [hnew] at hcases
  constructor
  · rintro ⟨hroutes, hsame⟩
    have hunique := (hagain.resolve_left fun h => h.2 hsame).2
    refine ⟨fun e he e' he' => (hunique e he).trans (hunique e' he').symm, fun hnone => ?_⟩
    exact (hcases.resolve_left fun h => hnone _ h.1).1.symm.trans (hroutes.2 hnone)
  · rintro ⟨hunique, hnone⟩
    have hserves : ∀ e, s.Serves partitionId e → e = new := by
      intro e he
      obtain ⟨hserves, -⟩ | ⟨rfl, hindex⟩ := hcases
      · exact hunique he hserves
      · exact hindex e he
    refine ⟨⟨fun ⟨e, he⟩ => hserves e he ▸ he, fun h => ?_⟩, ?_⟩
    · exact (hcases.resolve_left fun hfound => h _ hfound.1).1.trans (hnone h)
    · exact (hagain.resolve_left fun h => h.2 (hserves _ h.1)).1

def remoteEidIndex (serverIndex : Nat) : Nat :=
  ((c.requestStates serverIndex).e partitionId).remoteEidIndex

/-- **Partitions are routed to their owners** by `update_remote_eid`, and a second call changes
nothing, just if no partition has two endpoints with the lcore of its owner, and those without any
had none before. -/
theorem updateRemoteEid_routes_iff : (∀ i < c.serverCount, ∀ p < (c.servers i).partitionCount,
      Routes cfg (c.servers i) p (c.updateRemoteEid.remoteEidIndex p i) ∧
        c.updateRemoteEid.updateRemoteEid.remoteEidIndex p i =
          c.updateRemoteEid.remoteEidIndex p i) ↔
    ∀ i < c.serverCount, ∀ p < (c.servers i).partitionCount,
      {eindex | (c.servers i).Serves p eindex}.Subsingleton ∧
        ((∀ eindex, ¬ (c.servers i).Serves p eindex) →
          c.remoteEidIndex p i = cfg.kMaxEndpointsPerServer) := by
  refine forall₂_congr fun i hi => forall₂_congr fun p hp => ?_
  have hindex : ∀ c' : Client cfg α, c'.servers = c.servers → c'.serverCount = c.serverCount →
      c'.updateRemoteEid.remoteEidIndex p i =
        newRemoteEidIndex (c.servers i) p (c'.remoteEidIndex p i) := by
    intro c' hservers hcount
    simp [remoteEidIndex, updateRemoteEid, hservers, hcount, hi, hp]
  rw [hindex c.updateRemoteEid rfl rfl]
  exact newRemoteEidIndex_routes_iff (c.servers i) p _ (hindex c rfl rfl).symm

end Client

/-- Both endpoints of the server have the lcore of the owner: the index alternates. -/
theorem updateRemoteEid_alternates : ∃ c : Client oneDescriptor Nat, c.serverCount = 1 ∧
    (c.servers 0).partitionCount = 1 ∧
      c.updateRemoteEid.updateRemoteEid.remoteEidIndex 0 0 ≠ c.updateRemoteEid.remoteEidIndex 0 0 :=
  ⟨{ freshClient with servers := fun _ => ⟨true, true, 1, 2, fun _ => ⟨1, 1, 1, 0⟩, fun _ => 0⟩ },
    rfl, rfl, by decide⟩

end Testbed.Mica
